import ScriptReader.Pipeline

/-!
# Streams are edited causally

A reader of a stream who stops early makes nothing happen beyond what it took.  The other side of
this is that what it took does not depend on anything further on: sources that hold the same tokens
as far as they have been asked cannot be told apart.

## Main Definitions

* `Feed.Exceeds` — all that a feed still has to say costs more than a bound
* `Feed.AgreeUpTo` — two feeds say the same until a bound is exceeded
* `Feed.costOf` — the requests that the first tokens of a feed cost its source

## Main Statements

* `Stage.agreeUpTo_feed` — a stage makes feeds that agree of feeds that agree
* `Pipeline.taken_feed_of_take_eq` — what a pipeline lets out depends only on the tokens that have
  been drawn for it

## Design Notes

Nothing here looks at a particular stage.  A stage sees its input through a cursor, and where two
cursors show different things both have asked for more than the bound.  From there on all that is
let out costs more than the bound, and it does not matter any more what it is.
-/

namespace ScriptReader

/-! ## Feeds that agree -/

namespace Feed

/-- All tokens of the feed, and its end, cost more than `m` requests. -/
structure Exceeds (m : Nat) (f : Feed) : Prop where
  /-- So do the tokens. -/
  arrivals : ∀ a ∈ f.arrivals, m < a.asked
  /-- So does the end. -/
  close : m < f.close

/-- The feeds have the same tokens at the same cost until more than `m` requests are needed, and
neither has ended by then. -/
inductive AgreeUpTo (m : Nat) : Feed → Feed → Prop
  /-- More is needed for whatever comes next. -/
  | beyond {f f' : Feed} (left : f.Exceeds m) (right : f'.Exceeds m) : AgreeUpTo m f f'
  /-- The same token comes next. -/
  | arrival {as as' : List Arrival} {e e' : Nat} (a : Arrival) (asked_le : a.asked ≤ m)
      (rest : AgreeUpTo m ⟨as, e⟩ ⟨as', e'⟩) : AgreeUpTo m ⟨a :: as, e⟩ ⟨a :: as', e'⟩

/-- The requests that have reached the source when the first `k` tokens of the feed have been taken,
or when it has reported its end instead. -/
def costOf (f : Feed) : Nat → Nat
  | 0 => 0
  | k + 1 => (f.arrivals[k]?.map Arrival.asked).getD f.close

variable {m n k : Nat} {f f' : Feed} {ts us us' : List Token}

/-! ### Feeds whose tokens cost more than a bound -/

theorem Exceeds.lt_costOf_succ (h : f.Exceeds m) (k : Nat) : m < f.costOf (k + 1) := by
  show m < (f.arrivals[k]?.map Arrival.asked).getD f.close
  cases hk : f.arrivals[k]? with
  | none => exact h.close
  | some a => exact h.arrivals a (List.mem_of_getElem? hk)

theorem Exceeds.prepend (h : f.Exceeds m) (hn : m < n) (ts : List Token) :
    (f.prepend n ts).Exceeds m where
  arrivals := by
    intro a ha
    rcases List.mem_append.1 ha with hnew | hold
    · obtain ⟨t, -, rfl⟩ := List.mem_map.1 hnew
      exact hn
    · exact h.arrivals a hold
  close := h.close

theorem Exceeds.tail {a : Arrival} {as : List Arrival} {e : Nat}
    (h : Exceeds m ⟨a :: as, e⟩) : Exceeds m ⟨as, e⟩ :=
  ⟨fun b hb => h.arrivals b (List.mem_cons_of_mem a hb), h.close⟩

theorem exceeds_countingFrom (hn : m ≤ n) (ts : List Token) : (countingFrom n ts).Exceeds m := by
  induction ts generalizing n with
  | nil => exact ⟨fun a ha => absurd ha List.not_mem_nil, Nat.lt_succ_of_le hn⟩
  | cons t ts ih =>
    have hrest : (countingFrom (n + 1) ts).Exceeds m := ih (by omega)
    exact hrest.prepend (Nat.lt_succ_of_le hn) [t]

/-! ### Feeds that agree -/

theorem AgreeUpTo.prepend (h : f.AgreeUpTo m f') (hn : n ≤ m) (ts : List Token) :
    (f.prepend n ts).AgreeUpTo m (f'.prepend n ts) := by
  induction ts with
  | nil => exact h
  | cons t ts ih => exact .arrival ⟨t, n⟩ hn ih

/-- Sources that begin with the same tokens agree for as many requests. -/
theorem agreeUpTo_countingFrom (n : Nat) (ts us us' : List Token) :
    (countingFrom n (ts ++ us)).AgreeUpTo (n + ts.length) (countingFrom n (ts ++ us')) := by
  induction ts generalizing n with
  | nil =>
    exact .beyond (exceeds_countingFrom (Nat.le_refl n) us)
      (exceeds_countingFrom (Nat.le_refl n) us')
  | cons t ts ih =>
    have hrest := ih (n + 1)
    rw [List.length_cons, Nat.add_comm ts.length 1, ← Nat.add_assoc]
    exact .arrival ⟨t, n + 1⟩ (Nat.le_add_right _ _) hrest

/-- Tokens that can be had within the bound are the same. -/
theorem AgreeUpTo.take_eq (h : f.AgreeUpTo m f') (hcost : f.costOf k ≤ m) :
    f'.arrivals.take k = f.arrivals.take k ∧ (f.arrivals.take k).length = k ∧
      ∀ a ∈ f.arrivals.take k, a.asked ≤ m := by
  induction h generalizing k with
  | beyond left right =>
    cases k with
    | zero => simp
    | succ k => exact absurd (left.lt_costOf_succ k) (Nat.not_lt.2 hcost)
  | @arrival as as' e e' a asked_le rest ih =>
    cases k with
    | zero => simp
    | succ k =>
      have hrest : costOf ⟨as, e⟩ k ≤ m := by
        cases k with
        | zero => exact Nat.zero_le m
        | succ k => simpa [costOf] using hcost
      obtain ⟨heq, hlength, hcheap⟩ := ih hrest
      simp only [List.take_succ_cons, List.length_cons, List.forall_mem_cons]
      exact ⟨congrArg (a :: ·) heq, congrArg (· + 1) hlength, asked_le, hcheap⟩

/-- What is seen of the source when `k` tokens are taken that all cost no more than it holds. -/
theorem drawn_some {size : Nat} (hlength : (f.arrivals.take k).length = k)
    (hcheap : ∀ a ∈ f.arrivals.take k, a.asked ≤ size) :
    f.drawn size (some k) =
      (f.arrivals.take k).map Arrival.asked ++
        [((f.arrivals.take k).map Arrival.asked).getLast?.getD 0] := by
  have hk : k ≤ f.arrivals.length := by
    rw [List.length_take] at hlength
    omega
  have hcosts : ∀ n ∈ (f.arrivals.take k).map Arrival.asked, min size n = n := by
    intro n hn
    obtain ⟨a, ha, rfl⟩ := List.mem_map.1 hn
    exact Nat.min_eq_right (hcheap a ha)
  have hlast : min size (((f.arrivals.take k).map Arrival.asked).getLast?.getD 0) =
      ((f.arrivals.take k).map Arrival.asked).getLast?.getD 0 := by
    cases hl : ((f.arrivals.take k).map Arrival.asked).getLast? with
    | none => exact Nat.min_zero size
    | some n => exact hcosts n (List.mem_of_getLast? hl)
  unfold drawn taken
  rw [List.map_append, List.map_congr_left hcosts, List.map_id']
  simp only [Option.any_some, hk, decide_true, if_true, List.map_cons, List.map_nil, hlast]

end Feed

/-! ## Cursors that agree -/

namespace Cursor

/-- All that the cursor will ask of its feed costs more than `m` requests, and so did the last thing
it asked. -/
structure Exceeds (m : Nat) (c : Cursor) : Prop where
  /-- What it asked. -/
  asked : m < c.asked
  /-- What it will ask. -/
  supply : c.supply.Exceeds m

/-- The cursors have seen the same at the same cost, which is no more than `m`, and their feeds
agree up to `m`. -/
structure AgreeUpTo (m : Nat) (c c' : Cursor) : Prop where
  /-- They have read the same tokens. -/
  history : c.history = c'.history
  /-- They have looked at the same tokens. -/
  ahead : c.ahead = c'.ahead
  /-- It has cost the same. -/
  asked : c.asked = c'.asked
  /-- The cost is within the bound. -/
  asked_le : c.asked ≤ m
  /-- What they have not seen agrees. -/
  supply : c.supply.AgreeUpTo m c'.supply

variable {m : Nat} {c c' : Cursor}

theorem Exceeds.next (h : c.Exceeds m) : c.next.2.Exceeds m := by
  unfold Cursor.next
  split
  · exact ⟨h.asked, h.supply⟩
  · split
    case h_1 a rest harrivals =>
      have hsupply := h.supply
      rw [show c.supply = ⟨a :: rest, c.supply.close⟩ by rw [← harrivals]] at hsupply
      exact ⟨hsupply.arrivals a List.mem_cons_self, hsupply.tail⟩
    case h_2 => exact ⟨h.supply.close, h.supply⟩

/-- Reading, the cursors get the same token, or both have to ask for more than the bound. -/
theorem AgreeUpTo.next (h : c.AgreeUpTo m c') :
    (∃ t, c.next.1 = some t ∧ c'.next.1 = some t ∧ c.next.2.AgreeUpTo m c'.next.2) ∨
      (c.next.2.Exceeds m ∧ c'.next.2.Exceeds m) := by
  obtain ⟨history, ahead, supply, asked⟩ := c
  obtain ⟨history', ahead', supply', asked'⟩ := c'
  obtain ⟨rfl, rfl, rfl, hle, hsupply⟩ := h
  cases ahead with
  | cons t ahead => exact .inl ⟨t, rfl, rfl, rfl, rfl, rfl, hle, hsupply⟩
  | nil =>
    cases hsupply with
    | beyond left right =>
      -- What is read next, or the end, is the first thing that the feed still has to say.
      have hexceeds {f : Feed} (hf : f.Exceeds m) :
          (Cursor.next ⟨history, [], f, asked⟩).2.Exceeds m := by
        obtain ⟨arrivals, close⟩ := f
        cases arrivals with
        | nil => exact ⟨hf.close, hf⟩
        | cons a rest => exact ⟨hf.arrivals a List.mem_cons_self, hf.tail⟩
      exact .inr ⟨hexceeds left, hexceeds right⟩
    | arrival a asked_le rest =>
      exact .inl ⟨a.token, rfl, rfl, rfl, rfl, rfl, asked_le, rest⟩

theorem Exceeds.lookAhead (h : c.Exceeds m) (n : Nat) : (c.lookAhead n).2.Exceeds m := by
  show (c.fill (n + 1)).Exceeds m
  unfold fill
  split
  case isTrue => exact h
  case isFalse =>
    constructor
    · show m < c.supply.costOf (n + 1 - c.ahead.length - 1 + 1)
      exact h.supply.lt_costOf_succ _
    · exact ⟨fun a ha => h.supply.arrivals a (List.mem_of_mem_drop ha), h.supply.close⟩

/-- Looking ahead, the cursors see the same kind, or both have to ask for more than the bound. -/
theorem AgreeUpTo.lookAhead (h : c.AgreeUpTo m c') :
    ((c.lookAhead 0).1 = (c'.lookAhead 0).1 ∧ (c.lookAhead 0).2.AgreeUpTo m (c'.lookAhead 0).2) ∨
      ((c.lookAhead 0).2.Exceeds m ∧ (c'.lookAhead 0).2.Exceeds m) := by
  obtain ⟨history, ahead, supply, asked⟩ := c
  obtain ⟨history', ahead', supply', asked'⟩ := c'
  obtain ⟨rfl, rfl, rfl, hle, hsupply⟩ := h
  cases ahead with
  | cons t ahead =>
    have hfill (f : Feed) : (Cursor.mk history (t :: ahead) f asked).fill (0 + 1) =
        ⟨history, t :: ahead, f, asked⟩ := if_pos (by simp)
    unfold Cursor.lookAhead
    rw [hfill, hfill]
    exact .inl ⟨rfl, rfl, rfl, rfl, hle, hsupply⟩
  | nil =>
    cases hsupply with
    | beyond left right =>
      have hexceeds {f : Feed} (hf : f.Exceeds m) :
          ((Cursor.mk history [] f asked).lookAhead 0).2.Exceeds m :=
        ⟨hf.lt_costOf_succ 0, fun a ha => hf.arrivals a (List.mem_of_mem_drop ha), hf.close⟩
      exact .inr ⟨hexceeds left, hexceeds right⟩
    | arrival a asked_le rest =>
      exact .inl ⟨rfl, rfl, rfl, rfl, asked_le, rest⟩

end Cursor

/-! ## Stages and pipelines -/

namespace Ruling

variable {σ : Type} {m : Nat} {c c' : Cursor}

theorem exceeds_resolve (r : Ruling σ) (h : c.Exceeds m) : (r.resolve c).2.Exceeds m := by
  cases r with
  | settled => exact h
  | pending resume => exact h.lookAhead 0

/-- A ruling comes out the same at both cursors, unless its question exceeds the bound at both. -/
theorem agreeUpTo_resolve (r : Ruling σ) (h : c.AgreeUpTo m c') :
    ((r.resolve c).1 = (r.resolve c').1 ∧ (r.resolve c).2.AgreeUpTo m (r.resolve c').2) ∨
      ((r.resolve c).2.Exceeds m ∧ (r.resolve c').2.Exceeds m) := by
  cases r with
  | settled => exact .inl ⟨rfl, h⟩
  | pending resume =>
    rcases h.lookAhead with ⟨hkind, hagree⟩ | hexceeds
    · exact .inl ⟨congrArg resume hkind, hagree⟩
    · exact .inr hexceeds

end Ruling

namespace Stage

variable {S : Stage} {m : Nat} {c c' : Cursor} {f f' : Feed}

/-- Once a cursor has asked for more than a bound, so does everything that is made of the rest. -/
theorem exceeds_feedFrom (S : Stage) (s : S.State) (h : c.next.2.Exceeds m) :
    (S.feedFrom s c).Exceeds m := by
  fun_induction feedFrom S s c with
  | case1 s c c' hnext =>
    rw [hnext] at h
    have hend : (⟨[], c'.asked⟩ : Feed).Exceeds m :=
      ⟨fun a ha => (List.not_mem_nil ha).elim, h.asked⟩
    exact hend.prepend h.asked _
  | case2 s c t c' hnext r ih =>
    rw [hnext] at h
    have hresolve : r.2.Exceeds m := (S.step s t c'.history).exceeds_resolve h
    exact (ih hresolve.next).prepend hresolve.asked _

/-- What is made of the rest, if there is a token to read. -/
theorem feedFrom_of_next {s : S.State} {t : Token} (ht : c.next.1 = some t) :
    S.feedFrom s c =
      let r := (S.step s t c.next.2.history).resolve c.next.2
      (S.feedFrom r.1.1 r.2).prepend r.2.asked r.1.2 := by
  have hnext : c.next = (some t, c.next.2) := by rw [← ht]
  rw [feedFrom]
  split
  case h_1 hnone => rw [hnext] at hnone; cases hnone
  case h_2 u d hsome =>
    rw [hnext] at hsome
    cases hsome
    rfl

/-- A stage makes feeds that agree of what is left at cursors that agree. -/
theorem agreeUpTo_feedFrom (S : Stage) (s : S.State) (h : c.AgreeUpTo m c') :
    (S.feedFrom s c).AgreeUpTo m (S.feedFrom s c') := by
  induction s, c using feedFrom.induct S generalizing c' with
  | case1 s c d hnext =>
    rcases h.next with ⟨t, hread, -⟩ | ⟨hexceeds, hexceeds'⟩
    · simp [hnext] at hread
    · exact .beyond (S.exceeds_feedFrom s hexceeds) (S.exceeds_feedFrom s hexceeds')
  | case2 s c t d hnext r =>
    rename_i ih
    rcases h.next with ⟨u, hread, hread', hagree⟩ | ⟨hexceeds, hexceeds'⟩
    · simp only [hnext, Option.some.injEq] at hread hagree
      subst hread
      have hright : S.feedFrom s c' =
          let r := (S.step s t d.history).resolve c'.next.2
          (S.feedFrom r.1.1 r.2).prepend r.2.asked r.1.2 := by
        rw [feedFrom_of_next hread', hagree.history]
      rw [feedFrom_of_next (congrArg Prod.fst hnext), hnext, hright]
      rcases (S.step s t d.history).agreeUpTo_resolve hagree with
        ⟨hruling, hafter⟩ | ⟨hexceeds, hexceeds'⟩
      · have hrest := ih hafter
        dsimp only
        rw [← hruling, ← hafter.asked]
        exact hrest.prepend hafter.asked_le _
      · exact .beyond ((S.exceeds_feedFrom _ hexceeds.next).prepend hexceeds.asked _)
          ((S.exceeds_feedFrom _ hexceeds'.next).prepend hexceeds'.asked _)
    · exact .beyond (S.exceeds_feedFrom s hexceeds) (S.exceeds_feedFrom s hexceeds')

theorem agreeUpTo_feed (S : Stage) (h : f.AgreeUpTo m f') : (S.feed f).AgreeUpTo m (S.feed f') :=
  S.agreeUpTo_feedFrom S.start ⟨rfl, rfl, rfl, Nat.zero_le m, h⟩

end Stage

namespace Pipeline

/-- A pipeline makes feeds that agree of feeds that agree. -/
theorem agreeUpTo_feed {m : Nat} {f f' : Feed} (stages : Pipeline) (h : f.AgreeUpTo m f') :
    (stages.feed f).AgreeUpTo m (stages.feed f') := by
  induction stages generalizing f f' with
  | nil => exact h
  | cons S stages ih => exact ih (S.agreeUpTo_feed h)

/-- If the first `k` tokens that a pipeline lets out cost no more than `m` requests, and no request
went beyond the end, every source that begins with the same `m` tokens leads to the same `k` tokens,
and as many tokens have been drawn from it after each of them. -/
theorem taken_feed_of_take_eq (read : String → List Token) (passes : List Pass)
    {ts ts' : List Token} {k m : Nat}
    (hcost : ((ofPasses read passes).feed (.ofList ts)).costOf k = m) (hm : m ≤ ts.length)
    (hts : ts'.take m = ts.take m) :
    let f := (ofPasses read passes).feed (.ofList ts)
    let f' := (ofPasses read passes).feed (.ofList ts')
    f'.taken (some k) = f.taken (some k) ∧ (f.taken (some k)).length = k ∧
      f'.drawn ts'.length (some k) = f.drawn ts.length (some k) := by
  intro f f'
  -- Both lists go on in their own way after the tokens that they share.
  have hlist : (Feed.ofList ts).AgreeUpTo m (.ofList ts') := by
    have hshared := Feed.agreeUpTo_countingFrom 0 (ts.take m) (ts.drop m) (ts'.drop m)
    rw [List.take_append_drop, ← hts, List.take_append_drop, hts] at hshared
    rwa [List.length_take, Nat.min_eq_left hm, Nat.zero_add] at hshared
  obtain ⟨htaken, hlength, hcheap⟩ :=
    ((ofPasses read passes).agreeUpTo_feed hlist).take_eq (Nat.le_of_eq hcost)
  have hm' : m ≤ ts'.length := by
    have := congrArg List.length hts
    simp only [List.length_take] at this
    omega
  refine ⟨htaken, hlength, ?_⟩
  have hdrawn : f.drawn ts.length (some k) = _ :=
    Feed.drawn_some hlength fun a ha => Nat.le_trans (hcheap a ha) hm
  have hdrawn' : f'.drawn ts'.length (some k) = _ :=
    Feed.drawn_some (htaken ▸ hlength) fun a ha => Nat.le_trans (hcheap a (htaken ▸ ha)) hm'
  rw [hdrawn, hdrawn', htaken]

/-- The mark before a list of parameters is let out as soon as the brace after the list has been
seen, whatever becomes of the brace. -/
theorem taken_feed_parameters :
    let f := (ofPasses lex Pass.standard).feed (.ofList (lex "( a ) \x7b b \x7d"))
    let f' := (ofPasses lex Pass.standard).feed (.ofList (lex "( a ) \x7b c"))
    f.costOf 4 = 7 ∧ 7 ≤ (lex "( a ) \x7b b \x7d").length ∧
      (lex "( a ) \x7b c").take 7 = (lex "( a ) \x7b b \x7d").take 7 ∧
      f'.taken (some 4) = f.taken (some 4) ∧ (f.taken (some 4)).length = 4 ∧
      f'.drawn (lex "( a ) \x7b c").length (some 4) =
        f.drawn (lex "( a ) \x7b b \x7d").length (some 4) := by
  have hcost :
      ((ofPasses lex Pass.standard).feed (.ofList (lex "( a ) \x7b b \x7d"))).costOf 4 = 7 := by
    decide +kernel
  have hm : 7 ≤ (lex "( a ) \x7b b \x7d").length := by
    decide +kernel
  have hts : (lex "( a ) \x7b c").take 7 = (lex "( a ) \x7b b \x7d").take 7 := by
    decide +kernel
  exact ⟨hcost, hm, hts, taken_feed_of_take_eq lex Pass.standard hcost hm hts⟩

end Pipeline

end ScriptReader
