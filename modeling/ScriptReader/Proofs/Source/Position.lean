import Mathlib.Algebra.GroupWithZero.Nat
import Mathlib.Data.List.DropRight
import Mathlib.Order.Basic
import ScriptReader.Proofs.Text.Pieces
import ScriptReader.Source.Location

/-!
# Positions found by reading

Without a line map, the position of an offset is found by reading the source up to there: line
breaks are counted, and after the last of them the columns of the characters are added up.  Going
from character to character finds the same position, and later ones only.

## Main Definitions

* The order of positions, by line and on one line by column
* `Position.after` — the position that follows a character
* `Position.Fits` — the lines that a text can still need do not run out
* `Position.scanned` — the position after a text, found by reading it

## Main Statements

* `Position.Fits.le_foldl_after` — reading on leads to a later position
* `Position.foldl_after_default` — reading character by character finds the position after a text

## Design Notes

Lines and columns are counted without bound, and each is cut down to the greatest offset at the end.
Going from character to character they are cut down each time; that comes to the same, since what
has reached the greatest offset stays there.

For columns the bound does no harm, but a line break on the last line that can be counted would lead
back to the start of that line.  A text of no more bytes than can be counted gets there only if it
consists of line breaks alone, and then every line is empty.
-/

namespace ScriptReader

/-- What is cut down once more after adding to it might as well have been cut down at the end. -/
theorem Offset.clamp_toNat_clamp_add (n m : Nat) : clamp ((clamp n).toNat + m) = clamp (n + m) := by
  rw [← UInt32.toNat_inj]
  simp only [toNat_clamp]
  omega

/-! ## The order of positions -/

namespace Position

variable {p q : Position}

/-- Positions are ordered by line, and on one line by column. -/
instance : LE Position := ⟨fun p q => p.line < q.line ∨ p.line = q.line ∧ p.column ≤ q.column⟩

theorem le_def : p ≤ q ↔ p.line < q.line ∨ p.line = q.line ∧ p.column ≤ q.column := Iff.rfl

theorem le_iff_toNat : p ≤ q ↔ p.line.toNat < q.line.toNat ∨
    p.line.toNat = q.line.toNat ∧ p.column.toNat ≤ q.column.toNat := by
  rw [le_def, UInt32.lt_iff_toNat_lt, UInt32.le_iff_toNat_le, ← UInt32.toNat_inj]

instance : DecidableLE Position := fun p q =>
  inferInstanceAs (Decidable (p.line < q.line ∨ p.line = q.line ∧ p.column ≤ q.column))

/-- This is the order in which positions are compared. -/
theorem le_iff_isLE_compare : p ≤ q ↔ (compare p q).isLE := by
  have hcompare : compare p q =
      (compare p.line q.line).then ((compare p.column q.column).then .eq) := rfl
  rw [hcompare, Ordering.then_eq, Ordering.isLE_then_iff_or, Std.compare_eq_lt,
    Std.compare_eq_iff_eq, Std.LawfulOrderOrd.isLE_compare, le_def]

example : (⟨1, 80⟩ : Position) ≤ ⟨2, 0⟩ := by decide

instance : Preorder Position where
  le_refl _ := .inr ⟨rfl, UInt32.le_refl _⟩
  le_trans p q r hpq hqr := by
    rw [le_iff_toNat] at *
    omega

/-! ### Positions of characters -/

/-- The position just after the character `c` that stands at `p`. -/
def after (width : Char → Option Nat) (p : Position) (c : Char) : Position :=
  if c = '\n' then ⟨Offset.clamp (p.line.toNat + 1), 0⟩
  else ⟨p.line, Offset.clamp (p.column.toNat + (width c).getD 1)⟩

/-- The lines that `cs` can still need from `p` on can be counted.  A line that is not empty has
taken a byte of its own. -/
def Fits (p : Position) (cs : List Char) : Prop :=
  p.line.toNat + min p.column.toNat 1 + Text.byteCount cs ≤ Offset.top + 1

variable {width : Char → Option Nat} {c : Char} {cs : List Char}

theorem Fits.after (h : p.Fits (c :: cs)) : (p.after width c).Fits cs := by
  have hpos := c.utf8Size_pos
  unfold Fits at *
  rw [Text.byteCount_cons] at h
  rw [Position.after]
  split
  · simp only [Offset.toNat_clamp, UInt32.toNat_zero]
    omega
  · simp only [Offset.toNat_clamp]
    omega

theorem Fits.le_after (h : p.Fits (c :: cs)) : p ≤ p.after width c := by
  have hpos := c.utf8Size_pos
  have htop := Offset.toNat_le_top p.line
  have htop' := Offset.toNat_le_top p.column
  rw [Fits, Text.byteCount_cons] at h
  rw [Position.after, le_iff_toNat]
  split
  · simp only [Offset.toNat_clamp, UInt32.toNat_zero]
    omega
  · simp only [Offset.toNat_clamp, true_and]
    omega

/-- Reading on from a position leads to a later one. -/
theorem Fits.le_foldl_after (h : p.Fits cs) : p ≤ cs.foldl (Position.after width) p := by
  induction cs generalizing p with
  | nil => exact le_refl p
  | cons c cs ih => exact h.le_after.trans (ih h.after)

/-- What a text can need after some of its characters it can need. -/
theorem Fits.foldl_after {ds : List Char} (h : p.Fits (cs ++ ds)) :
    (cs.foldl (Position.after width) p).Fits ds := by
  induction cs generalizing p with
  | nil => exact h
  | cons c cs ih => exact ih h.after

theorem fits_default (hsize : Text.byteCount cs ≤ Offset.top) : (default : Position).Fits cs := by
  have hline : (default : Position).line.toNat = 1 := rfl
  have hcolumn : (default : Position).column.toNat = 0 := rfl
  rw [Position.Fits]
  omega

end Position

/-! ## Reading a text -/

namespace Position

variable {width : Char → Option Nat}

/-- The position after a text, given how many line breaks are in it: the line counts these, and the
column adds up the widths of the characters after the last of them, where one without a width takes
one column. -/
def scanned (width : Char → Option Nat) (breaks : Nat) (cs : List Char) : Position :=
  ⟨Offset.clamp (1 + breaks),
    Offset.clamp ((cs.rtakeWhile (· ≠ '\n')).map fun c => (width c).getD 1).sum⟩

theorem after_scanned_newline (breaks : Nat) (cs : List Char) :
    (scanned width breaks cs).after width '\n' = scanned width (breaks + 1) (cs ++ ['\n']) := by
  rw [after, if_pos rfl, scanned, scanned, List.rtakeWhile_concat_neg _ _ _ (by simp),
    Offset.clamp_toNat_clamp_add, Nat.add_assoc]
  rfl

theorem after_scanned {c : Char} (hc : c ≠ '\n') (breaks : Nat) (cs : List Char) :
    (scanned width breaks cs).after width c = scanned width breaks (cs ++ [c]) := by
  rw [after, if_neg hc, scanned, scanned, List.rtakeWhile_concat_pos _ _ _ (by simpa using hc),
    Offset.clamp_toNat_clamp_add, List.map_append, List.sum_append, List.map_singleton,
    List.sum_singleton]

/-- Reading character by character finds the position after a text. -/
theorem foldl_after_default (width : Char → Option Nat) (cs : List Char) :
    cs.foldl (Position.after width) default = scanned width (cs.count '\n') cs := by
  induction cs using List.reverseRecOn with
  | nil => rfl
  | append_singleton cs c ih =>
    rw [List.foldl_append, List.foldl_cons, List.foldl_nil, ih, List.count_append,
      List.count_singleton]
    by_cases hc : c = '\n'
    · subst hc
      exact after_scanned_newline _ cs
    · rw [if_neg (by simpa using hc), Nat.add_zero]
      exact after_scanned hc _ cs

end Position

end ScriptReader
