import Mathlib.Data.List.Basic
import Mathlib.Data.List.Induction
import ScriptReader.Proofs.Stage.Kept

/-!
# Runs of a stage over part of a list

A stage that has read some tokens has let some out and goes on from the state it is in.  What it
makes of a list can so be split wherever the list is split.

## Main Definitions

* `History.pushAll` — what has been read after a list of tokens
* `Stage.runFrom`, `Stage.run` — the state after some tokens and what has been let out with them
* `Stage.LetsBy` — a token is let by, with what is let out before and afterwards
* `Stage.Releases`, `Stage.Passes` — a token is let out when it comes by, behind others or alone

## Main Statements

* `Stage.apply_append` — a list is edited up to a place and from there on
* `Stage.exists_letsBy_of_applyFrom_eq` — if tokens are only dropped, each of the others was there
* `Stage.getLast?_run` — a token that is let out at once is the last for the time being

## Design Notes

What is made of the last token of a part may depend on the kind of the first token after it, so a
run is given that kind.
-/

namespace ScriptReader

namespace History

/-- The history after the tokens of a list have been read as well. -/
def pushAll (h : History) (ts : List Token) : History := ts.foldl push h

@[simp] theorem pushAll_nil (h : History) : h.pushAll [] = h := rfl

@[simp] theorem pushAll_cons (h : History) (t : Token) (ts : List Token) :
    h.pushAll (t :: ts) = (h.push t).pushAll ts := rfl

/-- The newest token is the last of the list, if there is any. -/
theorem current_pushAll (h : History) (ts : List Token) :
    (h.pushAll ts).current = ts.getLast?.or h.current := by
  induction ts generalizing h with
  | nil => rfl
  | cons t ts ih =>
    rw [pushAll_cons, ih, current_push, List.getLast?_cons]
    cases ts.getLast? with
    | none => rfl
    | some u => rfl

/-- What is seen before the next token is the last token of the list. -/
theorem lookBack_one_push_pushAll (ts : List Token) (t : Token) :
    ((empty.pushAll ts).push t).lookBack 1 = ts.getLast?.map Token.kind := by
  rw [lookBack_one_push, current_pushAll, current_empty, Option.or_none]

end History

namespace Stage

/-- The state after the tokens of a list and what has been let out with them, if a token of kind
`next` comes after them. -/
def runFrom (S : Stage) (s : S.State) (h : History) (next : Option TokenKind) :
    List Token → S.State × List Token
  | [] => (s, [])
  | t :: ts =>
    let r := (S.step s t (h.push t)).given ((ts.head?.map Token.kind).or next)
    let rest := S.runFrom r.1 (h.push t) next ts
    (rest.1, r.2 ++ rest.2)

/-- The same from the start of a stream. -/
def run (S : Stage) (next : Option TokenKind) (ts : List Token) : S.State × List Token :=
  S.runFrom S.start .empty next ts

variable (S : Stage) (s : S.State) (h : History) (next : Option TokenKind) (ts us : List Token)

theorem runFrom_cons (t : Token) :
    S.runFrom s h next (t :: ts) =
      let r := (S.step s t (h.push t)).given ((ts.head?.map Token.kind).or next)
      ((S.runFrom r.1 (h.push t) next ts).1, r.2 ++ (S.runFrom r.1 (h.push t) next ts).2) :=
  rfl

/-- What comes after the first of two parts is the second, or what comes after that. -/
private theorem head?_append_or :
    ((ts ++ us).head?.map Token.kind).or next =
      (ts.head?.map Token.kind).or ((us.head?.map Token.kind).or next) := by
  cases ts with
  | nil => rfl
  | cons t ts => rfl

theorem runFrom_append :
    S.runFrom s h next (ts ++ us) =
      let first := S.runFrom s h ((us.head?.map Token.kind).or next) ts
      let rest := S.runFrom first.1 (h.pushAll ts) next us
      (rest.1, first.2 ++ rest.2) := by
  induction ts generalizing s h with
  | nil => rfl
  | cons t ts ih =>
    rw [List.cons_append, runFrom_cons, head?_append_or]
    simp only [ih, runFrom_cons, History.pushAll_cons, List.append_assoc]

/-- One token more is read in the state after the others. -/
theorem fst_run_concat (t : Token) :
    (S.run next (ts ++ [t])).1 =
      ((S.step (S.run (some t.kind) ts).1 t ((History.empty.pushAll ts).push t)).given next).1 := by
  rw [run, runFrom_append]
  rfl

theorem snd_run_concat (t : Token) :
    (S.run next (ts ++ [t])).2 =
      (S.run (some t.kind) ts).2 ++
        ((S.step (S.run (some t.kind) ts).1 t ((History.empty.pushAll ts).push t)).given
          next).2 := by
  rw [run, runFrom_append]
  simp only [runFrom, List.append_nil]
  rfl

/-- A stage that never looks ahead does the same whatever comes next. -/
theorem runFrom_eq_none
    (hstep : ∀ s t h next, (S.step s t h).given next = (S.step s t h).given none) :
    S.runFrom s h next ts = S.runFrom s h none ts := by
  induction ts generalizing s h with
  | nil => rfl
  | cons t ts ih =>
    rw [runFrom_cons, runFrom_cons, hstep, hstep s t (h.push t) ((ts.head?.map Token.kind).or none)]
    simp only [ih]

theorem applyFrom_append :
    S.applyFrom s h (ts ++ us) =
      (S.runFrom s h (us.head?.map Token.kind) ts).2 ++
        S.applyFrom (S.runFrom s h (us.head?.map Token.kind) ts).1 (h.pushAll ts) us := by
  induction ts generalizing s h with
  | nil => rfl
  | cons t ts ih =>
    have hnext := head?_append_or none ts us
    rw [Option.or_none, Option.or_none] at hnext
    rw [List.cons_append, applyFrom_cons, hnext, ih, ← List.append_assoc]
    rfl

/-- A list is edited up to a place and from there on. -/
theorem apply_append :
    S.apply (ts ++ us) =
      (S.run (us.head?.map Token.kind) ts).2 ++
        S.applyFrom (S.run (us.head?.map Token.kind) ts).1 (History.empty.pushAll ts) us :=
  S.applyFrom_append S.start .empty ts us

/-- At the end a stage lets out what is still due. -/
theorem apply_eq_run :
    S.apply ts = (S.run none ts).2 ++ S.atEnd (S.run none ts).1 (History.empty.pushAll ts) := by
  have hsplit := S.apply_append ts []
  rwa [List.append_nil] at hsplit

/-- What a step leaves of a token, in the eyes of `view`, is left of all tokens. -/
theorem filterMap_runFrom {S : Stage} {view : Token → Option Token}
    (hstep : ∀ s t h next,
      ((S.step s t h).given next).2.filterMap view = [t].filterMap view)
    (s : S.State) (h : History) (next : Option TokenKind) (ts : List Token) :
    (S.runFrom s h next ts).2.filterMap view = ts.filterMap view := by
  induction ts generalizing s h with
  | nil => rfl
  | cons t ts ih =>
    rw [runFrom_cons, List.filterMap_append, hstep, ih, ← List.filterMap_append,
      List.singleton_append]

/-! ### Stages that drop tokens or let them by -/

/-- The token `u` is let by when it comes after `front` and before `back`.  What has been let out
until then is `front'`, and what is let out afterwards is `back'`. -/
structure LetsBy (S : Stage) (s : S.State) (h : History) (front : List Token) (u : Token)
    (back front' back' : List Token) : Prop where
  before : (S.runFrom s h (some u.kind) front).2 = front'
  here : ((S.step (S.runFrom s h (some u.kind) front).1 u ((h.pushAll front).push u)).given
    (back.head?.map Token.kind)).2 = [u]
  after : ∃ s', back' = S.applyFrom s' ((h.pushAll front).push u) back

/-- A token that comes first is let out first, if at all. -/
theorem LetsBy.cons {S : Stage} {s : S.State} {h : History} {t u : Token}
    {front back front' back' : List Token}
    (hlets : LetsBy S
      ((S.step s t (h.push t)).given ((front ++ u :: back).head?.map Token.kind)).1 (h.push t)
      front u back front' back') :
    LetsBy S s h (t :: front) u back
      (((S.step s t (h.push t)).given ((front ++ u :: back).head?.map Token.kind)).2 ++ front')
      back' := by
  have hnext : (front.head?.map Token.kind).or (some u.kind) =
      (front ++ u :: back).head?.map Token.kind := by
    cases front <;> rfl
  rw [← hnext] at hlets ⊢
  obtain ⟨rfl, hhere, hafter⟩ := hlets
  exact ⟨by rw [runFrom_cons], by rw [runFrom_cons]; exact hhere, hafter⟩

section

variable {S : Stage}
  (hstep : ∀ s t h next, ((S.step s t h).given next).2.Sublist [t])

include hstep

theorem sublist_runFrom_of_step (s : S.State) (h : History) (next : Option TokenKind)
    (ts : List Token) : (S.runFrom s h next ts).2.Sublist ts := by
  induction ts generalizing s h with
  | nil => exact .slnil
  | cons t ts ih => exact (hstep s t _ _).append (ih _ _)

/-- A token that has been let by was there, and what is around it afterwards is what has become of
what was around it. -/
theorem exists_letsBy_of_applyFrom_eq (hend : ∀ s h, S.atEnd s h = []) {s : S.State} {h : History}
    {ts front back : List Token} {u : Token} (hout : S.applyFrom s h ts = front ++ u :: back) :
    ∃ front' back', ts = front' ++ u :: back' ∧ LetsBy S s h front' u back' front back := by
  induction ts generalizing s h front with
  | nil => simp [applyFrom, hend] at hout
  | cons t ts ih =>
    rw [applyFrom_cons] at hout
    rcases List.sublist_singleton.1 (hstep s t (h.push t) (ts.head?.map Token.kind)) with
      hnil | hkeep
    · rw [hnil, List.nil_append] at hout
      obtain ⟨front', back', rfl, hlets⟩ := ih hout
      have hlater := hlets.cons
      rw [hnil, List.nil_append] at hlater
      exact ⟨t :: front', back', rfl, hlater⟩
    · rw [hkeep, List.singleton_append] at hout
      cases front with
      | nil =>
        obtain ⟨rfl, hback⟩ := List.cons.inj hout
        exact ⟨[], ts, rfl, rfl, hkeep, _, hback.symm⟩
      | cons v front =>
        obtain ⟨rfl, hrest⟩ := List.cons.inj hout
        obtain ⟨front', back', rfl, hlets⟩ := ih hrest
        have hlater := hlets.cons
        rw [hkeep, List.singleton_append] at hlater
        exact ⟨t :: front', back', rfl, hlater⟩

end

/-! ### Tokens that are let out at once -/

section

variable {S : Stage} {t : Token}

/-- The stage lets the token out as it is when it comes by, perhaps behind others. -/
def Releases (S : Stage) (t : Token) : Prop :=
  ∀ s h next, ∃ others, ((S.step s t h).given next).2 = others ++ [t]

/-- The stage lets the token out as it is, and nothing else, when it comes by. -/
def Passes (S : Stage) (t : Token) : Prop :=
  ∀ s h next, ((S.step s t h).given next).2 = [t]

theorem Passes.releases (ht : S.Passes t) : S.Releases t :=
  fun s h next => ⟨[], ht s h next⟩

/-- What is let out with a token ends with the token. -/
theorem Releases.exists_applyFrom_eq (ht : S.Releases t) (s : S.State) (h : History)
    (ts : List Token) :
    ∃ others s', (S.step s t (h.push t)).given (ts.head?.map Token.kind) = (s', others ++ [t]) ∧
      S.applyFrom s h (t :: ts) = others ++ t :: S.applyFrom s' (h.push t) ts := by
  obtain ⟨others, hout⟩ := ht s (h.push t) (ts.head?.map Token.kind)
  refine ⟨others, _, Prod.ext rfl hout, ?_⟩
  rw [applyFrom_cons, hout, List.append_assoc, List.singleton_append]

/-- A token that is let out at once stays between what comes before and after it. -/
theorem Passes.exists_applyFrom_eq (ht : S.Passes t) (s : S.State) (h : History)
    (ts : List Token) : ∃ s', S.applyFrom s h (t :: ts) = t :: S.applyFrom s' (h.push t) ts := by
  refine ⟨((S.step s t (h.push t)).given (ts.head?.map Token.kind)).1, ?_⟩
  rw [applyFrom_cons, ht, List.singleton_append]

theorem Passes.exists_apply_eq (ht : S.Passes t) (front ts : List Token) :
    ∃ s h, S.apply (front ++ t :: ts) =
      (S.run (some t.kind) front).2 ++ t :: S.applyFrom s h ts := by
  rw [apply_append]
  obtain ⟨s, hs⟩ := ht.exists_applyFrom_eq (S.run (some t.kind) front).1
    (History.empty.pushAll front) ts
  exact ⟨s, _, congrArg (_ ++ ·) hs⟩

/-- Nothing comes between two tokens that are let out alone. -/
theorem Passes.exists_apply_pair_eq {u : Token} (ht : S.Passes t) (hu : S.Passes u)
    (front back : List Token) :
    ∃ before after, S.apply (front ++ t :: u :: back) = before ++ t :: u :: after := by
  obtain ⟨s, h, hout⟩ := ht.exists_apply_eq front (u :: back)
  obtain ⟨s', hrest⟩ := hu.exists_applyFrom_eq s h back
  exact ⟨_, _, hout.trans (by rw [hrest])⟩

/-- What is let out last is the last token, if that is let out at once. -/
theorem getLast?_run (next : Option TokenKind) {ts : List Token}
    (hlast : ∀ t ∈ ts.getLast?, S.Releases t) : (S.run next ts).2.getLast? = ts.getLast? := by
  cases ts using List.reverseRecOn with
  | nil => rfl
  | append_singleton ts t =>
    obtain ⟨others, hout⟩ := hlast t List.getLast?_concat (S.run (some t.kind) ts).1
      ((History.empty.pushAll ts).push t) next
    rw [snd_run_concat, hout, ← List.append_assoc, List.getLast?_concat, List.getLast?_concat]

end

end Stage

end ScriptReader
