import Mathlib.Data.List.Basic
import ScriptReader.Stream.Cursor

/-!
# A cursor as an index into a list

What a cursor has read, what it has looked at and what it has left in its feed are kept in three
places.  To whoever uses it, it is nothing but a list with a number: how many tokens have been read.

## Main Definitions

* `Cursor.Call`, `Cursor.respond` — what can be asked of a cursor, and what it answers
* `Cursor.Place`, `Cursor.Place.respond` — the same of a list and an index
* `Cursor.IsAt` — a cursor stands at a place of a list

## Main Statements

* `Cursor.IsAt.respond` — at a place of a list a cursor answers as the list does, and goes on from
  where the list goes on from
* `Cursor.transcript_ofList` — no sequence of calls tells a cursor from a list with an index, nor
  does the number of tokens that have been drawn from the source

## Design Notes

Of what has been read a cursor keeps only the last tokens.  An index far back finds nothing in
either case: the list is not asked beyond the reach of a history.

A place remembers how far it has been looked ahead, since what has been drawn from the source does
not come back.  Nothing else depends on it.
-/

namespace ScriptReader

/-! ## Feeds of lists -/

namespace Feed

/-- What is left of the feed of a list is the feed of what is left of the list. -/
theorem drop_countingFrom (n k : Nat) (ts : List Token) :
    (⟨(countingFrom n ts).arrivals.drop k, (countingFrom n ts).close⟩ : Feed) =
      countingFrom (n + min k ts.length) (ts.drop k) := by
  induction ts generalizing n k with
  | nil => simp [countingFrom]
  | cons t ts ih =>
    cases k with
    | zero => simp
    | succ k =>
      have hrest := ih (n + 1) k
      rw [List.length_cons, Nat.add_min_add_right, ← Nat.add_assoc, Nat.add_right_comm]
      exact hrest

/-- The requests that it takes to see one more token after `k` others, or that there is none. -/
theorem asked_countingFrom (n k : Nat) (ts : List Token) :
    ((countingFrom n ts).arrivals[k]?.map Arrival.asked).getD (countingFrom n ts).close =
      n + 1 + min k ts.length := by
  induction ts generalizing n k with
  | nil => simp [countingFrom]
  | cons t ts ih =>
    cases k with
    | zero => simp [countingFrom]
    | succ k =>
      have hrest := ih (n + 1) k
      rw [List.length_cons, Nat.add_min_add_right, ← Nat.add_assoc, Nat.add_right_comm]
      exact hrest

end Feed

namespace Cursor

/-! ## What can be asked of a cursor -/

/-- Something that is asked of a cursor. -/
inductive Call where
  /-- The next token, which is thereby read. -/
  | next
  /-- The kind of the token `n` places after the next one. -/
  | lookAhead (n : UInt64)
  /-- The kind of the token `n` places before the newest one. -/
  | lookBack (n : UInt64)
  /-- The newest token. -/
  | current
  /-- Where the newest token ends. -/
  | offset
  deriving DecidableEq, Repr

/-- What is answered. -/
inductive Answer where
  /-- A token, or that there is none. -/
  | token (t : Option Token)
  /-- The kind of a token, or that there is no such token. -/
  | kind (k : Option TokenKind)
  /-- An offset. -/
  | offset (a : Offset)
  deriving DecidableEq, Repr

/-- What a cursor answers, and the cursor afterwards. -/
def respond (v : Cursor) : Call → Answer × Cursor
  | .next => (.token v.next.1, v.next.2)
  | .lookAhead n => (.kind (v.lookAhead n.toNat).1, (v.lookAhead n.toNat).2)
  | .lookBack n => (.kind (v.history.lookBack n), v)
  | .current => (.token v.history.current, v)
  | .offset => (.offset v.history.offset, v)

/-- The answers to some calls, each with the number of tokens that have been drawn by then from a
source of `size` tokens. -/
def transcript (size : Nat) (v : Cursor) : List Call → List (Answer × Nat)
  | [] => []
  | call :: calls =>
    ((v.respond call).1, (v.respond call).2.drawn size) :: (v.respond call).2.transcript size calls

/-! ## What is answered from a list -/

/-- A place in a list of tokens. -/
structure Place where
  /-- How many tokens have been read. -/
  read : Nat := 0
  /-- How far it has been looked ahead, each time from the start of the list. -/
  sights : List Nat := []

namespace Place

variable (ts : List Token) (p : Place)

/-- The number of tokens that have been read or looked at. -/
def drawn : Nat := max p.read ((p.sights.map (min ts.length)).foldr max 0)

/-- The token that was read last. -/
def current : Option Token := if p.read = 0 then none else ts[p.read - 1]?

/-- What is answered from a list, and the place afterwards. -/
def respond : Call → Answer × Place
  | .next =>
    (.token ts[p.read]?, if ts[p.read]?.isSome then { p with read := p.read + 1 } else p)
  | .lookAhead n =>
    (.kind (ts[p.read + n.toNat]?.map Token.kind),
      { p with sights := (p.read + n.toNat + 1) :: p.sights })
  | .lookBack n =>
    (.kind (if n.toNat < min p.read History.reach then
      ts[p.read - 1 - n.toNat]?.map Token.kind else none), p)
  | .current => (.token (p.current ts), p)
  | .offset => (.offset ((p.current ts).elim 0 fun t => t.span.stop), p)

/-- The answers to some calls, each with the number of tokens that have been read or looked at. -/
def transcript (p : Place) : List Call → List (Answer × Nat)
  | [] => []
  | call :: calls =>
    ((p.respond ts call).1, (p.respond ts call).2.drawn ts) ::
      (p.respond ts call).2.transcript calls

theorem read_le_drawn : p.read ≤ p.drawn ts := Nat.le_max_left _ _

theorem drawn_le_length (h : p.read ≤ ts.length) : p.drawn ts ≤ ts.length := by
  have hsights : ∀ sights : List Nat, (sights.map (min ts.length)).foldr max 0 ≤ ts.length := by
    intro sights
    induction sights with
    | nil => exact Nat.zero_le _
    | cons s sights ih => exact Nat.max_le.2 ⟨Nat.min_le_left _ _, ih⟩
  exact Nat.max_le.2 ⟨h, hsights p.sights⟩

/-- Looking further ahead than before draws as many tokens as it takes. -/
theorem drawn_lookAhead (n : UInt64) :
    (p.respond ts (.lookAhead n)).2.drawn ts =
      max (min ts.length (p.read + n.toNat + 1)) (p.drawn ts) :=
  Nat.max_left_comm _ _ _

/-- Reading draws a token only if that has not been looked at. -/
theorem drawn_read : drawn ts { p with read := p.read + 1 } = max (p.read + 1) (p.drawn ts) := by
  show max (p.read + 1) _ = max (p.read + 1) (max p.read _)
  rw [← Nat.max_assoc, Nat.max_eq_left (Nat.le_succ p.read)]

end Place

/-! ## Cursors at a place -/

/-- The cursor `v` stands at the place `p` of the tokens `ts`. -/
structure IsAt (ts : List Token) (v : Cursor) (p : Place) : Prop where
  /-- No more has been read than there is. -/
  read_le : p.read ≤ ts.length
  /-- The last of what has been read can be looked back at. -/
  history : v.history.behind = (ts.take p.read).drop (p.read - History.reach)
  /-- What has been looked at comes next. -/
  ahead : v.ahead = (ts.drop p.read).take (p.drawn ts - p.read)
  /-- What has not been looked at is left in the feed. -/
  supply : v.supply = .countingFrom (p.drawn ts) (ts.drop (p.drawn ts))
  /-- As much has been drawn from the source as has been read or looked at. -/
  drawn : v.drawn ts.length = p.drawn ts

namespace IsAt

variable {ts : List Token} {v : Cursor} {p : Place}

theorem ofFeed (ts : List Token) : IsAt ts (.ofFeed (.ofList ts)) {} where
  read_le := Nat.zero_le _
  history := rfl
  ahead := rfl
  supply := rfl
  drawn := Nat.min_zero _

theorem drawn_le (h : IsAt ts v p) : p.drawn ts ≤ ts.length :=
  p.drawn_le_length ts h.read_le

theorem length_ahead (h : IsAt ts v p) : v.ahead.length = p.drawn ts - p.read := by
  have hle := h.drawn_le
  rw [h.ahead, List.length_take, List.length_drop]
  omega

theorem remaining (h : IsAt ts v p) : v.remaining = ts.drop p.read := by
  have hle := p.read_le_drawn ts
  have hdrop : ts.drop (p.drawn ts) = (ts.drop p.read).drop (p.drawn ts - p.read) := by
    rw [List.drop_drop, Nat.add_sub_cancel' hle]
  rw [Cursor.remaining, h.ahead, h.supply, Feed.tokens_countingFrom, hdrop, List.take_append_drop]

theorem length_behind (h : IsAt ts v p) :
    v.history.behind.length = min p.read History.reach := by
  have hle := h.read_le
  rw [h.history, List.length_drop, List.length_take]
  omega

/-- What stands some places back in the list, and within reach, stands there in the history. -/
theorem getElem?_behind (h : IsAt ts v p) {n : Nat} (hn : n < min p.read History.reach) :
    v.history.behind[min p.read History.reach - 1 - n]? = ts[p.read - 1 - n]? := by
  rw [h.history, List.getElem?_drop, List.getElem?_take_of_lt (by omega)]
  congr 1
  omega

theorem current (h : IsAt ts v p) : v.history.current = p.current ts := by
  have hreach : 0 < History.reach := by decide
  rw [History.current, List.getLast?_eq_getElem?, h.length_behind, Place.current]
  split
  case isTrue hzero =>
    exact List.getElem?_eq_none (by rw [h.length_behind, hzero]; omega)
  case isFalse hpos => exact h.getElem?_behind (n := 0) (by omega)

theorem lookBack (h : IsAt ts v p) (n : UInt64) :
    v.history.lookBack n =
      if n.toNat < min p.read History.reach then
        ts[p.read - 1 - n.toNat]?.map Token.kind else none := by
  rw [History.lookBack_eq, h.length_behind]
  split
  case isTrue hlt => rw [h.getElem?_behind hlt]
  case isFalse => rfl

/-- Looking ahead takes from the feed what has not been looked at before. -/
theorem lookAhead (h : IsAt ts v p) (n : UInt64) :
    IsAt ts (v.lookAhead n.toNat).2 (p.respond ts (.lookAhead n)).2 := by
  have hle := h.drawn_le
  have hread := p.read_le_drawn ts
  have hahead := h.length_ahead
  have hdrawn := p.drawn_lookAhead ts n
  show IsAt ts (v.fill (n.toNat + 1)) _
  unfold fill
  split
  case isTrue hseen =>
    -- All of it has been looked at, so that nothing changes.
    have hsame : (p.respond ts (.lookAhead n)).2.drawn ts = p.drawn ts := by omega
    exact {
      read_le := h.read_le
      history := h.history
      ahead := by rw [hsame]; exact h.ahead
      supply := by rw [hsame]; exact h.supply
      drawn := by rw [hsame]; exact h.drawn }
  case isFalse hunseen =>
    obtain ⟨count, hcount⟩ : ∃ count, n.toNat + 1 - v.ahead.length = count + 1 :=
      Nat.exists_eq_succ_of_ne_zero (by omega)
    have hmore : (p.respond ts (.lookAhead n)).2.drawn ts =
        p.drawn ts + min (count + 1) (ts.drop (p.drawn ts)).length := by
      rw [hdrawn, List.length_drop]
      omega
    rw [hcount]
    exact {
      read_le := h.read_le
      history := h.history
      ahead := by
        have htaken : (v.supply.arrivals.take (count + 1)).map Arrival.token =
            (ts.drop (p.drawn ts)).take (count + 1) := by
          rw [List.map_take, h.supply]
          exact congrArg _ (Feed.tokens_countingFrom _ _)
        have hboth : ts.drop (p.drawn ts) = (ts.drop p.read).drop (p.drawn ts - p.read) := by
          rw [List.drop_drop, Nat.add_sub_cancel' hread]
        show v.ahead ++ (v.supply.arrivals.take (count + 1)).map Arrival.token =
          (ts.drop p.read).take ((p.respond ts (.lookAhead n)).2.drawn ts - p.read)
        rw [htaken, h.ahead, hboth, ← List.take_add, hmore, List.length_drop, List.take_eq_take_iff,
          List.length_drop]
        omega
      supply := by
        show (⟨v.supply.arrivals.drop (count + 1), v.supply.close⟩ : Feed) = _
        rw [h.supply, Feed.drop_countingFrom, hmore, List.drop_drop]
        congr 1
        rw [List.drop_eq_drop_iff, List.length_drop]
        omega
      drawn := by
        show min ts.length ((v.supply.arrivals[count + 1 - 1]?.map Arrival.asked).getD
          v.supply.close) = _
        rw [h.supply, Nat.add_sub_cancel, Feed.asked_countingFrom, hmore, List.length_drop]
        omega }

/-- A token that is read is the newest of what can be looked back at. -/
theorem behind_push (h : IsAt ts v p) {t : Token} (ht : ts[p.read]? = some t) :
    (v.history.push t).behind = (ts.take (p.read + 1)).drop (p.read + 1 - History.reach) := by
  have hlength : (ts.take p.read).length = p.read := List.length_take_of_le h.read_le
  have hbehind : (v.history.push t).behind = _ :=
    History.behind_push_eq_drop (h.history.trans (by rw [hlength])) t
  rw [hbehind, List.length_append, hlength, List.take_add_one, ht]
  rfl

/-- Reading takes what has been looked at, and only then from the feed. -/
theorem next (h : IsAt ts v p) : IsAt ts v.next.2 (p.respond ts .next).2 := by
  have hread := p.read_le_drawn ts
  have hle := h.drawn_le
  have hlength := h.length_ahead
  have hremaining := h.remaining
  have hmore := p.drawn_read ts
  obtain ⟨history, ahead, supply, asked⟩ := v
  cases ahead with
  | cons t ahead =>
    -- The token has been looked at, and nothing new is drawn.
    have ht : ts[p.read]? = some t := by
      rw [← List.head?_drop, ← hremaining]
      rfl
    have hsame : Place.drawn ts { p with read := p.read + 1 } = p.drawn ts := by
      rw [List.length_cons] at hlength
      omega
    rw [Place.respond, ht, Option.isSome_some, if_pos rfl]
    exact {
      read_le := (List.getElem?_eq_some_iff.1 ht).1
      history := h.behind_push ht
      ahead := by
        have hahead := congrArg List.tail h.ahead
        rw [hsame]
        rw [← List.drop_one (l := List.take _ _), List.drop_take, List.drop_drop, Nat.sub_sub]
          at hahead
        exact hahead
      supply := by rw [hsame]; exact h.supply
      drawn := by rw [hsame]; exact h.drawn }
  | nil =>
    have hdrawn : p.drawn ts = p.read := by
      rw [List.length_nil] at hlength
      omega
    have hsupply := h.supply
    simp only [hdrawn] at hsupply
    subst hsupply
    cases hrest : ts.drop p.read with
    | nil =>
      have hend := List.drop_eq_nil_iff.1 hrest
      have hnone : ts[p.read]? = none := List.getElem?_eq_none hend
      rw [Place.respond, hnone, Option.isSome_none, if_neg Bool.false_ne_true]
      exact {
        read_le := h.read_le
        history := h.history
        ahead := h.ahead
        supply := by rw [hdrawn, hrest]; rfl
        drawn := by
          rw [hdrawn]
          show min ts.length (p.read + 1) = p.read
          omega }
    | cons t rest =>
      have ht : ts[p.read]? = some t := by rw [← List.head?_drop, hrest, List.head?_cons]
      have htail : ts.drop (p.read + 1) = rest := by rw [← List.tail_drop, hrest, List.tail_cons]
      have hlt := (List.getElem?_eq_some_iff.1 ht).1
      have hone : Place.drawn ts { p with read := p.read + 1 } = p.read + 1 := by omega
      rw [Place.respond, ht, Option.isSome_some, if_pos rfl]
      exact {
        read_le := hlt
        history := h.behind_push ht
        ahead := by rw [hone, Nat.sub_self]; rfl
        supply := by rw [hone, htail]; rfl
        drawn := by
          rw [hone]
          show min ts.length (p.read + 1) = p.read + 1
          omega }

/-- At a place of a list a cursor answers as the list does. -/
theorem respond (h : IsAt ts v p) (call : Call) :
    (v.respond call).1 = (p.respond ts call).1 ∧
      IsAt ts (v.respond call).2 (p.respond ts call).2 := by
  cases call with
  | next =>
    refine ⟨?_, h.next⟩
    show Answer.token v.next.1 = .token ts[p.read]?
    rw [v.next_fst, h.remaining, List.head?_drop]
  | lookAhead n =>
    refine ⟨?_, h.lookAhead n⟩
    show Answer.kind (v.lookAhead n.toNat).1 = .kind (ts[p.read + n.toNat]?.map Token.kind)
    rw [v.lookAhead_fst, h.remaining, List.getElem?_drop]
  | lookBack n => exact ⟨congrArg Answer.kind (h.lookBack n), h⟩
  | current => exact ⟨congrArg Answer.token h.current, h⟩
  | offset =>
    refine ⟨?_, h⟩
    show Answer.offset v.history.offset = .offset ((p.current ts).elim 0 fun t => t.span.stop)
    rw [History.offset, h.current]
    cases p.current ts <;> rfl

/-- Nor do further calls tell them apart. -/
theorem transcript_eq (h : IsAt ts v p) (calls : List Call) :
    v.transcript ts.length calls = p.transcript ts calls := by
  induction calls generalizing v p with
  | nil => rfl
  | cons call calls ih =>
    obtain ⟨hanswer, hafter⟩ := h.respond call
    rw [transcript, Place.transcript, hanswer, hafter.drawn, ih hafter]

end IsAt

/-- A cursor cannot be told from a list with the number of tokens read: whatever is asked of it, the
answers are those of the list, and the tokens that have been drawn from the source are those that
have been read or looked at. -/
theorem transcript_ofList (ts : List Token) (calls : List Call) :
    (ofFeed (.ofList ts)).transcript ts.length calls = Place.transcript ts {} calls :=
  (IsAt.ofFeed ts).transcript_eq calls

end Cursor

end ScriptReader
