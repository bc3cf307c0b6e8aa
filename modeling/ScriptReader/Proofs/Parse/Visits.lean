import ScriptReader.Proofs.Parse.Turns

/-!
# What a parse comes upon

A parse of a list of tokens as a sequence of single steps, each a reduction or a shift.  What holds
of every configuration on the way is proved by induction on them, also where tables make a parse go
on reducing for ever and it has no end.

## Main Definitions

* `Configuration.Begins` — a reduction is begun
* `Configuration.Visits` — a parse comes upon a configuration
* `Configuration.Ends` — a parse ends in a configuration, with a result
* `Grammar.run` — a parse with the configuration in which it ends

## Main Statements

* `Grammar.parse_eq_run` — a parse yields what can be read off the configuration in which it ends
* `Grammar.ends_of_run` — a parse ends in a configuration that it comes upon, and its error is
  placed where the first token is that was not read

## Design Notes

A parse ends once the result of a reduction leads nowhere.  `Visits` does not say so, and goes on
from there as from anywhere else: whatever holds of more configurations holds of those of the parse.
-/

namespace ScriptReader

/-- The terminal that waits while the tokens have not been read: that of the first one, or the end
of input. -/
def Grammar.ahead? {κ ν : Type} (g : Grammar κ ν) : List Token → Option SymbolId
  | [] => some Symbols.endId
  | t :: _ => g.terminal? t.kind

namespace Configuration

variable {κ ν : Type} {g : Grammar κ ν} {c c' : Configuration κ ν} {context : κ}
variable {ts read rest : List Token} {result : Except ParseError Unit}

/-! ## Steps -/

/-- The production `p` is reduced and leads from `c` to `c'`, even if its left-hand side is lost. -/
inductive Begins (g : Grammar κ ν) (c : Configuration κ ν) (p : ProductionId) (r : Reduction)
    (c' : Configuration κ ν) : Prop
  | completed (made : c.reduce g p = .completed r c')
  | stranded (lost : c.reduce g p = .stranded r c')

/-- While a parse of `ts` in a context has read the tokens `read` and still has `rest` before it, it
comes upon a configuration. -/
inductive Visits (g : Grammar κ ν) (context : κ) (ts : List Token) :
    List Token → List Token → Configuration κ ν → Prop
  | start : Visits g context ts [] ts (start context)
  | reduced {read rest : List Token} {c c' : Configuration κ ν} {x : SymbolId} {p : ProductionId}
      {r : Reduction} (before : Visits g context ts read rest c) (ahead : g.ahead? rest = some x)
      (called : g.table.action? c.state x = some (.reduce p)) (begun : Begins g c p r c') :
      Visits g context ts read rest c'
  | shifted {read rest : List Token} {t : Token} {c : Configuration κ ν} {x : SymbolId}
      {q : StateId} (before : Visits g context ts read (t :: rest) c)
      (ahead : g.terminal? t.kind = some x)
      (called : g.table.action? c.state x = some (.shift q)) :
      Visits g context ts (read ++ [t]) rest (c.shift g q x t (c.siteOf t))

/-- Where the first token is that has not been read, or the end of input. -/
def siteAhead (c : Configuration κ ν) : List Token → Location
  | [] => .point c.lastPosition
  | t :: _ => c.siteOf t

/-- A parse of `ts` in a context ends in `c`, either because everything has been read or with an
error, which is placed where the first token is that has not been. -/
inductive Ends (g : Grammar κ ν) (context : κ) (ts : List Token) (c : Configuration κ ν) :
    Except ParseError Unit → Prop
  | done {read : List Token} (visits : Visits g context ts read [] c) : Ends g context ts c (.ok ())
  | failed {read rest : List Token} {fault : ParseError} (visits : Visits g context ts read rest c)
      (site : fault.location = c.siteAhead rest) : Ends g context ts c (.error fault)

/-- What a reduction is made from, and what it leaves of the locations. -/
theorem Begins.made {p : ProductionId} {r : Reduction} (h : Begins g c p r c') :
    ∃ production, g.table.production? p = some production ∧ r.length = production.length ∧
      r.location = c.extent (c.locationStack.take r.length).reverse ∧
      c'.context =
        (g.semantics.reduce c.context p (c.valueStack.take r.length).reverse r.location).1 ∧
      c'.lastPosition = c.lastPosition ∧
      (c'.locationStack = c.locationStack.drop r.length ∨
        c'.locationStack = r.location :: c.locationStack.drop r.length) := by
  have hreduce : c.reduce g p = .completed r c' ∨ c.reduce g p = .stranded r c' := by
    cases h with
    | completed made => exact .inl made
    | stranded lost => exact .inr lost
  rw [reduce] at hreduce
  split at hreduce
  case h_1 => simp at hreduce
  case h_2 production hproduction =>
    simp only at hreduce
    split at hreduce
    case isTrue => simp at hreduce
    case isFalse =>
      split at hreduce
      case h_1 =>
        obtain ⟨rfl, rfl⟩ : _ ∧ _ := by simpa using hreduce
        exact ⟨production, hproduction, rfl, rfl, rfl, rfl, .inl rfl⟩
      case h_2 =>
        obtain ⟨rfl, rfl⟩ : _ ∧ _ := by simpa using hreduce
        exact ⟨production, hproduction, rfl, rfl, rfl, rfl, .inr rfl⟩

/-! ### Reductions read nothing -/

theorem Begins.lastPosition_eq {p : ProductionId} {r : Reduction} (h : Begins g c p r c') :
    c'.lastPosition = c.lastPosition := by
  obtain ⟨_, -, -, -, -, hlast, -⟩ := h.made
  exact hlast

theorem Reduces.lastPosition_eq {x : SymbolId} {rs : List Reduction} (h : Reduces g x c rs c') :
    c'.lastPosition = c.lastPosition :=
  h.invariant (P := fun d => d.lastPosition = c.lastPosition)
    (fun hd _ made => (Begins.completed made).lastPosition_eq.trans hd) rfl

theorem Settles.lastPosition_eq {x : SymbolId} {site : Location} {s : Settled κ ν}
    (h : Settles g x site c s) : s.after.lastPosition = c.lastPosition :=
  h.invariant (P := fun d => d.lastPosition = c.lastPosition)
    (fun hd made => (Begins.completed made).lastPosition_eq.trans hd)
    (fun hd lost => (Begins.stranded lost).lastPosition_eq.trans hd) rfl

theorem siteOf_congr (h : c'.lastPosition = c.lastPosition) (t : Token) :
    c'.siteOf t = c.siteOf t := by
  rw [siteOf, siteOf, h]

theorem siteAhead_congr (h : c'.lastPosition = c.lastPosition) (rest : List Token) :
    c'.siteAhead rest = c.siteAhead rest := by
  cases rest with
  | nil => exact congrArg Location.point h
  | cons t rest => exact siteOf_congr h t

/-! ## Parses go by these steps -/

theorem Visits.read_append_rest (h : Visits g context ts read rest c) : read ++ rest = ts := by
  induction h with
  | start => rfl
  | reduced _ _ _ _ ih => exact ih
  | shifted _ _ _ ih => rw [List.append_assoc]; exact ih

/-- Reductions made while a terminal waits are steps. -/
theorem Visits.reduces {x : SymbolId} {rs : List Reduction}
    (h : Visits g context ts read rest c) (ahead : g.ahead? rest = some x)
    (hr : Reduces g x c rs c') : Visits g context ts read rest c' := by
  induction hr with
  | refl => exact h
  | step called made _ ih => exact ih (h.reduced ahead called (.completed made))

/-- A parse ends where reductions fail. -/
theorem Visits.settles {x : SymbolId} {rs : List Reduction} {fault : ParseError}
    (h : Visits g context ts read rest c) (ahead : g.ahead? rest = some x)
    (hs : Settles g x (c.siteAhead rest) c ⟨rs, c', .error fault⟩) :
    Ends g context ts c' (.error fault) := by
  have hsite := siteAhead_congr hs.lastPosition_eq rest
  cases hs with
  | refused reduced => exact .failed (h.reduces ahead reduced) hsite.symm
  | stranded reduced called lost =>
    exact .failed ((h.reduces ahead reduced).reduced ahead called (.stranded lost)) hsite.symm

/-- A token is read, or a parse ends. -/
theorem Visits.pushes {t : Token} {turn : Turn κ ν} (h : Visits g context ts read (t :: rest) c)
    (hp : Pushes g c t turn) :
    (turn.result = .ok () ∧ Visits g context ts (read ++ [t]) rest turn.after) ∨
    ∃ fault, turn.result = .error fault ∧ Ends g context ts turn.after (.error fault) := by
  cases hp with
  | unknown => exact .inr ⟨_, rfl, .failed h rfl⟩
  | @shifted x q rs c' known reduced called =>
    have hshifted := (h.reduces known reduced).shifted known called
    rw [siteOf_congr reduced.lastPosition_eq] at hshifted
    exact .inl ⟨rfl, hshifted⟩
  | unexpected known reduced =>
    exact .inr ⟨_, rfl, .failed (h.reduces known reduced)
      (siteOf_congr reduced.lastPosition_eq t).symm⟩
  | stuck known settled => exact .inr ⟨_, rfl, h.settles known settled⟩

theorem Visits.finishes {turn : Turn κ ν} (h : Visits g context ts read [] c)
    (hf : Finishes g c turn) : Ends g context ts turn.after turn.result := by
  cases hf with
  | accepted reduced => exact .done (h.reduces rfl reduced)
  | unexpected reduced =>
    exact .failed (h.reduces rfl reduced) (congrArg Location.point reduced.lastPosition_eq).symm
  | stuck settled => exact h.settles rfl settled

/-- Reading the tokens that are left leads to the end of them, or a parse ends. -/
theorem Visits.pushAll {patience : Nat} (h : Visits g context ts read rest c)
    (hrun : c.pushAll g patience rest = some (c', result)) : Ends g context ts c' result := by
  induction rest generalizing read c with
  | nil =>
    obtain ⟨rfl, rfl⟩ : c = c' ∧ .ok () = result := by simpa [Configuration.pushAll] using hrun
    exact .done h
  | cons t rest ih =>
    rw [Configuration.pushAll] at hrun
    cases hpush : c.push g patience t with
    | none => simp [hpush] at hrun
    | some turn =>
      rcases h.pushes (pushes_of_push hpush) with ⟨hok, hnext⟩ | ⟨fault, herror, hends⟩
      · exact ih hnext (by simpa [hpush, hok] using hrun)
      · obtain ⟨rfl, rfl⟩ : turn.after = c' ∧ .error fault = result := by
          simpa [hpush, herror] using hrun
        exact hends

end Configuration

/-! ## Whole parses -/

namespace Grammar

variable {κ ν : Type} {g : Grammar κ ν} {c : Configuration κ ν} {context : κ} {ts : List Token}
variable {patience : Nat} {result : Except ParseError Unit}

/-- Parses a list of tokens in a context, and gives the configuration in which the parse ends and
whether the whole input was accepted. -/
def run (g : Grammar κ ν) (patience : Nat) (context : κ) (ts : List Token) :
    Option (Configuration κ ν × Except ParseError Unit) :=
  match (Configuration.start context).pushAll g patience ts with
  | none => none
  | some (c, .error fault) => some (c, .error fault)
  | some (c, .ok ()) => (c.finish g patience).map fun turn => (turn.after, turn.result)

/-- A parse yields what can be read off the configuration in which it ends. -/
theorem parse_eq_run (g : Grammar κ ν) (patience : Nat) (context : κ) (ts : List Token) :
    g.parse patience context ts =
      (g.run patience context ts).map fun (c, result) =>
        (c.context, result.map fun _ => c.value g) := by
  rw [parse, run]
  cases (Configuration.start context).pushAll g patience ts with
  | none => rfl
  | some outcome =>
    obtain ⟨c, fault | ⟨⟩⟩ := outcome
    · rfl
    · simp only [Option.map_map, Function.comp_def]

/-- **A parse ends in a configuration that it comes upon**, and its error is placed where the first
token is that was not read. -/
theorem ends_of_run (h : g.run patience context ts = some (c, result)) :
    Configuration.Ends g context ts c result := by
  rw [run] at h
  split at h
  case h_1 => cases h
  case h_2 c' fault hpush =>
    obtain ⟨rfl, rfl⟩ : c' = c ∧ .error fault = result := by simpa using h
    exact Configuration.Visits.start.pushAll hpush
  case h_3 c' hpush =>
    obtain ⟨turn, hturn, hlast⟩ := Option.map_eq_some_iff.1 h
    obtain ⟨rfl, rfl⟩ : turn.after = c ∧ turn.result = result := by simpa using hlast
    cases Configuration.Visits.start.pushAll hpush with
    | done visits => exact visits.finishes (Configuration.finishes_of_finish hturn)

end Grammar

end ScriptReader
