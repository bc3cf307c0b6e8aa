import Mathlib.Data.List.Forall2
import ScriptReader.Token.Basic

/-!
# Tokens moved along a source

A token is moved by adding the same number to both ends of its span.  All else stays as it is.

## Main Definitions

* `Span.HasRoom` — a span can be moved by some number of bytes
* `Token.moved` — a token moved forward
* `Token.IsMoved` — a token is another one moved forward

## Main Statements

* `Span.IsMoved.slice` — a part of a moved span is the part of the span, moved
* `Token.IsMoved.shifted` — the same token of a fragment, put in at two places

## Design Notes

`Token.moved` stops at the greatest offset.  `Token.IsMoved` does not: it is the sum that it speaks
of, so that two tokens are related only if there was room.
-/

namespace ScriptReader

/-- Neither end of the span leaves the range of offsets if the span is moved forward by `d`. -/
def Span.HasRoom (s : Span) (d : Offset) : Prop :=
  max s.start.toNat s.stop.toNat + d.toNat ≤ Offset.top

instance (s : Span) (d : Offset) : Decidable (s.HasRoom d) := inferInstanceAs (Decidable (_ ≤ _))

/-- The token moved forward by `d`. -/
def Token.moved (t : Token) (d : Offset) : Token := { t with span := t.span.offsetBy d }

/-- The span `r` is `s` moved forward by `d`. -/
structure Span.IsMoved (d : Offset) (s r : Span) : Prop where
  /-- The start has been moved. -/
  start : r.start.toNat = s.start.toNat + d.toNat
  /-- So has the end. -/
  stop : r.stop.toNat = s.stop.toNat + d.toNat

/-- The token `u` is `t` moved forward by `d`. -/
structure Token.IsMoved (d : Offset) (t u : Token) : Prop where
  /-- The kind is the same. -/
  kind : u.kind = t.kind
  /-- So is the text. -/
  text : u.text = t.text
  /-- So is the location. -/
  location : u.location = t.location
  /-- The span has been moved. -/
  span : t.span.IsMoved d u.span

variable {d : Offset} {s r : Span} {t u v : Token} {ts us : List Token}

/-! ## Spans -/

theorem Span.isMoved_offsetBy (h : s.HasRoom d) : s.IsMoved d (s.offsetBy d) := by
  unfold HasRoom at h
  constructor
  · rw [s.toNat_start_offsetBy d (by omega), Nat.add_comm]
  · rw [s.toNat_stop_offsetBy d (by omega), Nat.add_comm]

namespace Span.IsMoved

theorem length_eq (h : s.IsMoved d r) : r.length = s.length := by
  rw [length, length, h.start, h.stop, Nat.add_sub_add_right]

/-- A part of a span is moved as the span is. -/
theorem slice (h : s.IsMoved d r) (skip size : Nat) :
    (s.slice skip size).IsMoved d (r.slice skip size) := by
  have hstart := h.start
  have hstop := h.stop
  have htop := Offset.toNat_le_top r.start
  have htop' := Offset.toNat_le_top r.stop
  have hlength : s.length = s.stop.toNat - s.start.toNat := rfl
  constructor
  · simp only [Span.slice, Offset.toNat_clamp, h.length_eq]
    omega
  · simp only [Span.slice, Offset.toNat_clamp, h.length_eq]
    omega

end Span.IsMoved

/-! ## Tokens -/

theorem Token.isMoved_moved (h : t.span.HasRoom d) : t.IsMoved d (t.moved d) :=
  ⟨rfl, rfl, rfl, Span.isMoved_offsetBy h⟩

theorem Token.forall₂_moved (h : ∀ t ∈ ts, t.span.HasRoom d) :
    List.Forall₂ (Token.IsMoved d) ts (ts.map (·.moved d)) :=
  List.forall₂_map_right_iff.2 (List.forall₂_same.2 fun t ht => isMoved_moved (h t ht))

namespace Token.IsMoved

theorem withKind (h : t.IsMoved d u) (k : TokenKind) : (t.withKind k).IsMoved d (u.withKind k) :=
  ⟨rfl, h.text, h.location, h.span⟩

/-- A mark at the start of a token is moved with it. -/
theorem mark_start (h : t.IsMoved d u) (k : TokenKind) :
    (Token.mark k t.span.start).IsMoved d (.mark k u.span.start) :=
  ⟨rfl, rfl, rfl, h.span.start, h.span.start⟩

/-- So is a mark at its end. -/
theorem mark_stop (h : t.IsMoved d u) (k : TokenKind) :
    (Token.mark k t.span.stop).IsMoved d (.mark k u.span.stop) :=
  ⟨rfl, rfl, rfl, h.span.stop, h.span.stop⟩

/-- A token of a fragment is moved with the place of the fragment, if it has room where it is put
in first. -/
theorem shifted (h : t.IsMoved d u) {o : Nat}
    (hroom : (v.shifted (t.span.start.plus o)).span.HasRoom d) :
    (v.shifted (t.span.start.plus o)).IsMoved d (v.shifted (u.span.start.plus o)) := by
  have hplace : (u.span.start.plus o).toNat =
      ((t.span.start.plus o).toNat + d.toNat) % (Offset.top + 1) := by
    rw [Offset.toNat_plus, Offset.toNat_plus, h.span.start, Nat.mod_add_mod, Nat.add_right_comm]
  have htop := Offset.toNat_le_top (t.span.start.plus o)
  simp only [Span.HasRoom, Token.shifted, Span.offsetBy, Offset.toNat_clamp] at hroom
  -- The place of the fragment does not wrap around when it is moved, for then nothing would fit.
  rw [Nat.mod_eq_of_lt (by omega)] at hplace
  refine ⟨rfl, rfl, rfl, ?_, ?_⟩
  · simp only [Token.shifted, Span.offsetBy, Offset.toNat_clamp, hplace]
    omega
  · simp only [Token.shifted, Span.offsetBy, Offset.toNat_clamp, hplace]
    omega

end Token.IsMoved

end ScriptReader
