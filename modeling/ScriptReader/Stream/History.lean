import ScriptReader.Token.Basic

/-!
# The recent past of a stream

What a stage may look back at: the tokens that were read last.

## Main Definitions

* `History` — the tokens that were read last, the newest at the end
* `History.push` — reads one more token
* `History.lookBack` — the kind of a token some places back
* `History.offset` — where the newest token ends
* `History.chunk` — a part of the newest token

## Main Statements

* `History.behind_push_eq_drop` — a history holds the last tokens that were read

## Design Notes

A history has room for `History.reach` tokens, the newest included.  When there is no room for
another one, the oldest is forgotten.

How far to look back is a machine word, and one is added to it to count from the end.  For the
greatest word that sum wraps around to zero, and nothing stands there; where arithmetic is checked,
asking that far back is refused instead.
-/

namespace ScriptReader

namespace History

/-- Number of tokens that can be looked back at. -/
def reach : Nat := 10

end History

/-- The tokens that were read last. -/
structure History where
  /-- Those tokens, the newest at the end. -/
  behind : List Token := []
  /-- There is room for no more. -/
  length_le : behind.length ≤ History.reach := by decide
  deriving DecidableEq, Repr

namespace History

/-- Nothing has been read yet. -/
def empty : History := {}

/-- What is left of the tokens of a history when there has to be room for another one. -/
def roomy (h : History) : List Token :=
  if h.behind.length = reach then h.behind.tail else h.behind

theorem length_roomy (h : History) : h.roomy.length = min h.behind.length (reach - 1) := by
  have hle := h.length_le
  unfold roomy
  split
  case isTrue hfull => rw [List.length_tail, hfull, Nat.min_eq_right (Nat.sub_le _ _)]
  case isFalse => exact (Nat.min_eq_left (by omega)).symm

/-- The history after `t` has been read. -/
def push (h : History) (t : Token) : History where
  behind := h.roomy ++ [t]
  length_le := by
    rw [List.length_append, length_roomy, List.length_singleton]
    exact Nat.add_le_of_le_sub (by decide) (Nat.min_le_right _ _)

/-- The newest token. -/
def current (h : History) : Option Token := h.behind.getLast?

/-- The kind of the token `n` places before the newest one, if it has not been forgotten. -/
def lookBack (h : History) (n : UInt64) : Option TokenKind :=
  let back := (n + 1).toNat
  if back ≤ h.behind.length then (h.behind[h.behind.length - back]?).map Token.kind else none

/-- Where the newest token ends; the start of the source if there is none. -/
def offset (h : History) : Offset := (h.current.map fun t => t.span.stop).getD 0

/-- A token without text, placed where the newest token ends. -/
def mark (h : History) (k : TokenKind) : Token := .mark k h.offset

/-- The `size` bytes that begin `skip` bytes into the newest token, as a token of kind `k`. -/
def chunk (h : History) (k : TokenKind) (skip size : Nat) : Token :=
  match h.current with
  | some t => t.chunk k skip size
  | none => h.mark k

/-! ### What a history shows -/

@[simp] theorem current_empty : empty.current = none := rfl

@[simp] theorem current_push (h : History) (t : Token) : (h.push t).current = some t :=
  List.getLast?_concat

@[simp] theorem offset_push (h : History) (t : Token) : (h.push t).offset = t.span.stop := by
  rw [offset, current_push]
  rfl

/-- A history holds the last tokens that were read. -/
theorem behind_push_eq_drop {h : History} {ts : List Token}
    (hh : h.behind = ts.drop (ts.length - reach)) (t : Token) :
    (h.push t).behind = (ts ++ [t]).drop ((ts ++ [t]).length - reach) := by
  have hroomy : h.roomy = ts.drop (ts.length + 1 - reach) := by
    rw [roomy, hh, List.length_drop, List.tail_drop]
    split
    case isTrue hfull => congr 1; omega
    case isFalse hroom => congr 1; unfold reach at *; omega
  rw [List.length_append, List.length_singleton, List.drop_append_of_le_length, ← hroomy]
  · rfl
  · unfold reach
    omega

/-- The token `n` places back is counted from the end, as if without bound. -/
theorem lookBack_eq (h : History) (n : UInt64) :
    h.lookBack n = if n.toNat < h.behind.length then
      (h.behind[h.behind.length - 1 - n.toNat]?).map Token.kind else none := by
  have hle := h.length_le
  have hword := n.toNat_lt
  have hsum : (n + 1).toNat = (n.toNat + 1) % 2 ^ 64 := UInt64.toNat_add n 1
  unfold reach at hle
  unfold lookBack
  rcases Nat.lt_or_ge (n.toNat + 1) (2 ^ 64) with hlt | hge
  · rw [Nat.mod_eq_of_lt hlt] at hsum
    rw [hsum, Nat.sub_sub, Nat.add_comm 1]
    rfl
  · -- The sum wraps around to zero, and there is nothing past the end.
    have hzero : (n + 1).toNat = 0 := by omega
    rw [hzero, if_pos (Nat.zero_le _), Nat.sub_zero, List.getElem?_eq_none (Nat.le_refl _),
      if_neg (by omega)]
    rfl

@[simp] theorem lookBack_empty (n : UInt64) : empty.lookBack n = none :=
  (lookBack_eq empty n).trans (if_neg (Nat.not_lt_zero _))

/-- What has gone out of reach is not seen, however much has been read. -/
theorem lookBack_eq_none_of_reach_le (h : History) {n : UInt64} (hn : reach ≤ n.toNat) :
    h.lookBack n = none := by
  rw [lookBack_eq, if_neg (Nat.not_lt.2 (Nat.le_trans h.length_le hn))]

/-- The token before the newest one is the one that was the newest before. -/
@[simp] theorem lookBack_one_push (h : History) (t : Token) :
    (h.push t).lookBack 1 = h.current.map Token.kind := by
  have hlast : h.roomy.getLast? = h.behind.getLast? := by
    unfold roomy
    split
    case isFalse => rfl
    case isTrue hfull =>
      rw [List.getLast?_tail, if_neg]
      rw [hfull]
      decide
  rw [lookBack_eq, current, ← hlast, List.getLast?_eq_getElem?]
  show (if 1 < (h.roomy ++ [t]).length then
    ((h.roomy ++ [t])[(h.roomy ++ [t]).length - 1 - 1]?).map Token.kind else none) = _
  rw [List.length_append, List.length_singleton, Nat.add_sub_cancel]
  split
  case isTrue hlt => rw [List.getElem?_append_left (by omega)]
  case isFalse hle =>
    have hnil : h.roomy = [] := List.length_eq_zero_iff.1 (by omega)
    rw [hnil]
    rfl

end History

end ScriptReader
