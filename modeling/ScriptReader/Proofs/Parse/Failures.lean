import ScriptReader.Proofs.Parse.Forest
import ScriptReader.Proofs.Parse.Visits

/-!
# Tokens that fail

A token that fails is not read, and all that it leaves behind are the reductions that it has called
for.  Each of them has been completed, unless the result of the last one leads nowhere; other than
in that case the same token fails again, in the same way and at once.

## Main Definitions

* `Configuration.Rewrites` — reductions replace what frames end in
* `Configuration.Refuses` — a token is not read, and will not be

## Main Statements

* `Configuration.Reduces.exists_rewrites` — completed reductions change the stacks in no other way
* `Configuration.refuses_of_failed` — a token that fails is refused, unless a reduced symbol leads
  nowhere
-/

namespace ScriptReader

namespace Configuration

variable {κ ν : Type} {g : Grammar κ ν} {c c' : Configuration κ ν} {fs : List (Frame ν)}
variable {t : Token} {x : SymbolId} {patience : Nat} {turn : Turn κ ν} {rs : List Reduction}

/-! ## Whole reductions -/

/-- From the first of the places to the last of them; without places, where the last token ended. -/
def extentFrom (last : Position) (places : List Location) : Location :=
  match places.head?, places.getLast? with
  | some first, some final => first.through final
  | _, _ => .point last

/-- The reductions `rs`, one after another, turn frames in a context into others in another one, if
the last token ended at `last`.  Each replaces as many frames as its production is long by one for
the left-hand side, which leads on from the frames below.  Its value, and the context, are what is
made of the values of the frames that are replaced. -/
inductive Rewrites (g : Grammar κ ν) (last : Position) :
    κ → List (Frame ν) → List Reduction → κ → List (Frame ν) → Prop
  | refl (k : κ) (fs : List (Frame ν)) : Rewrites g last k fs [] k fs
  | step {k k' k'' : κ} {fs fs' : List (Frame ν)} {f : Frame ν} {r : Reduction}
      {rs : List Reduction}
      (found : g.table.production? r.production = some ⟨r.lhs, r.length⟩)
      (enough : r.length ≤ fs.length)
      (place : r.location = extentFrom last ((fs.take r.length).map Frame.location).reverse)
      (made : g.semantics.reduce k r.production ((fs.take r.length).map Frame.value).reverse
        r.location = (k', f.value))
      (leads : g.table.goto? (stateOf (fs.drop r.length)) r.lhs = some f.state)
      (symbol : f.symbol = r.lhs) (location : f.location = r.location)
      (rest : Rewrites g last k' (f :: fs.drop r.length) rs k'' fs') :
      Rewrites g last k fs (r :: rs) k'' fs'

/-- Completed reductions change the stacks in no other way. -/
theorem Reduces.exists_rewrites (h : Reduces g x c rs c') (hc : c.Holds fs) :
    ∃ fs', c'.Holds fs' ∧ Rewrites g c.lastPosition c.context fs rs c'.context fs' := by
  induction h generalizing fs with
  | refl => exact ⟨fs, hc, .refl _ fs⟩
  | step called made _ ih =>
    obtain ⟨production, target, hp, hlen, hgoto, rfl, hcontext, hlast, hc₁⟩ := hc.completed made
    obtain ⟨fs', hc', hrest⟩ := ih hc₁
    rw [hcontext, hlast] at hrest
    exact ⟨fs', hc', .step hp hlen rfl rfl hgoto rfl rfl hrest⟩

/-! ## The same token again -/

/-- A token whose kind has no terminal fails wherever it comes. -/
theorem push_of_unknown (unknown : g.terminal? t.kind = none) (patience : Nat) :
    c.push g patience t = some ⟨[], c, .error (.invalidToken t.kind (c.siteOf t))⟩ := by
  simp only [push, unknown]

/-- A token fails at once where its terminal calls neither for a reduction nor for a shift. -/
theorem push_of_still (known : g.terminal? t.kind = some x)
    (still : ∀ p, g.table.action? c.state x ≠ some (.reduce p))
    (unshiftable : ∀ q, g.table.action? c.state x ≠ some (.shift q)) (patience : Nat) :
    c.push g (patience + 1) t =
      some ⟨[], c, .error (.unexpectedToken t.kind t.text (c.siteOf t) (c.expected g))⟩ := by
  -- No other case of either match can apply.
  simp only [push, known, settle, Option.map_some]

/-- A token fails at once where its terminal calls for a reduction that cannot be begun. -/
theorem push_of_refused {p : ProductionId} {fault : Inconsistency}
    (known : g.terminal? t.kind = some x)
    (called : g.table.action? c.state x = some (.reduce p))
    (refused : c.reduce g p = .refused fault) (patience : Nat) :
    c.push g (patience + 1) t =
      some ⟨[], c, .error (.invalidTable c.state fault (c.siteOf t))⟩ := by
  simp only [push, known, settle, called, refused, Option.map_some]

/-! ## Failures -/

/-- The token `t` is not read in its turn, and will not be if it comes again. -/
structure Refuses (g : Grammar κ ν) (c : Configuration κ ν) (t : Token) (turn : Turn κ ν) :
    Prop where
  /-- No token has been shifted. -/
  lastPosition : turn.after.lastPosition = c.lastPosition
  /-- The stacks and the context have changed by whole reductions only, the stacks all alike. -/
  rewrites : ∃ fs fs', c.Holds fs ∧ turn.after.Holds fs' ∧
    Rewrites g c.lastPosition c.context fs turn.reductions turn.after.context fs'
  /-- A token whose kind has no terminal has changed nothing, and the context has been told of
  nothing. -/
  unknown : ∀ kind l, turn.result = .error (.invalidToken kind l) →
    turn.reductions = [] ∧ turn.after = c
  /-- The same token fails again with the same error.  This time nothing changes, and the context is
  told of nothing. -/
  again : ∀ patience, turn.after.push g (patience + 1) t = some ⟨[], turn.after, turn.result⟩

/-- **Tokens that fail are refused.**  Let any tokens be pushed, with any tables and any semantics.
A token that fails without a reduced symbol having led nowhere is not read, leaves behind whole
reductions only, and fails in the same way again. -/
theorem refuses_of_failed {fault : ParseError} (h : Reachable g c)
    (pushed : c.push g patience t = some turn) (failed : turn.result = .error fault)
    (found : ¬ fault.IsMissingGoto) : c.Refuses g t turn := by
  obtain ⟨fs, hc, -⟩ := h.exists_traced
  have hrewrites {x : SymbolId} {rs : List Reduction} {c' : Configuration κ ν}
      (reduced : Reduces g x c rs c') :
      ∃ fs fs', c.Holds fs ∧ c'.Holds fs' ∧
        Rewrites g c.lastPosition c.context fs rs c'.context fs' := by
    obtain ⟨fs', hc', hrs⟩ := reduced.exists_rewrites hc
    exact ⟨fs, fs', hc, hc', hrs⟩
  cases pushes_of_push pushed with
  | unknown unknown =>
    exact ⟨rfl, ⟨fs, fs, hc, hc, .refl _ fs⟩, fun _ _ _ => ⟨rfl, rfl⟩,
      fun patience => push_of_unknown unknown (patience + 1)⟩
  | shifted => cases failed
  | unexpected known reduced still unshiftable =>
    refine ⟨reduced.lastPosition_eq, hrewrites reduced, fun _ _ herror => (by cases herror), ?_⟩
    intro patience
    rw [push_of_still known still unshiftable, siteOf_congr reduced.lastPosition_eq]
  | stuck known settled =>
    cases settled with
    | refused reduced called refused =>
      refine ⟨reduced.lastPosition_eq, hrewrites reduced, fun _ _ herror => (by cases herror), ?_⟩
      intro patience
      rw [push_of_refused known called refused, siteOf_congr reduced.lastPosition_eq]
    | stranded => exact absurd ⟨_, _, _, (Except.error.inj failed).symm⟩ found

end Configuration

/-! ## An example -/

/-- The tables of the grammar with the one production `list → id`.  They reduce the first word
before they find that no second one can come. -/
def ParseTable.lone : ParseTable where
  symbols := Symbols.ofNames ["id"] ["list"]
  actions := (((({} : Std.HashMap _ _).insert (0, 1) (.shift 2)).insert (1, 0) .accept).insert
    (2, 0) (.reduce 0)).insert (2, 1) (.reduce 0)
  gotos := ({} : Std.HashMap _ _).insert (0, 2) 1
  productions := #[⟨2, 1⟩]

theorem ParseTable.lone_built : lone.Built := by
  have h : Built (ofSymbols lists.symbols) := .ofSymbols _
  have h := h.insertAction 0 "id" (.shift 2) lists_get?_id (lists_isTerminal 1)
  have h := h.insertAction 1 "$" .accept lists_get?_end (lists_isTerminal 0)
  have h := h.insertAction 2 "$" (.reduce 0) lists_get?_end (lists_isTerminal 0)
  have h := h.insertAction 2 "id" (.reduce 0) lists_get?_id (lists_isTerminal 1)
  have h := h.insertGoto 0 "list" 1 lists_get?_list (lists_isTerminal 2)
  exact h.pushProduction "list" 1 lists_get?_list (lists_isTerminal 2)

theorem ParseTable.lone_action? (p : StateId) (x : SymbolId) : lone.action? p x =
    if p = 0 ∧ x = 1 then some (.shift 2)
    else if p = 1 ∧ x = 0 then some .accept
    else if p = 2 ∧ (x = 0 ∨ x = 1) then some (.reduce 0)
    else none := by
  simp only [lone, action?, Std.HashMap.getElem?_insert, beq_iff_eq, Prod.mk.injEq]
  grind

namespace Configuration

/-- Lists have the same symbols. -/
theorem lone_terminal?_identifier {κ ν : Type} (m : Semantics κ ν) :
    (Grammar.mk .lone m).terminal? .identifier = some 1 :=
  lists_terminal?_identifier m

/-- A second word, which fails only when the first one has been reduced. -/
theorem refuses_lone :
    ∃ (c : Configuration Unit Unit) (turn : Turn Unit Unit) (fault : ParseError),
      Reachable ⟨.lone, noValues⟩ c ∧ c.push ⟨.lone, noValues⟩ 2 (wordAt 2) = some turn ∧
      turn.result = .error fault ∧ ¬ fault.IsMissingGoto ∧ turn.after.symbols = [2] ∧
      c.Refuses ⟨.lone, noValues⟩ (wordAt 2) turn := by
  let g : Grammar Unit Unit := ⟨.lone, noValues⟩
  let l : Location := .point default
  obtain ⟨turn₁, h₁, hc₁⟩ : ∃ turn, (start ()).push g 1 (wordAt 0) = some turn ∧
      turn.after = ⟨(), [2], [1], [()], [l], default⟩ := by
    simp [push, g, lone_terminal?_identifier, wordAt, settle, state, start, ParseTable.lone_action?,
      initialState, shift, enter, siteOf, Location.point, noValues, l]
  have hgoto : ParseTable.lone.goto? 0 2 = some 1 := by simp [ParseTable.lone, ParseTable.goto?]
  have hproduction : ParseTable.lone.production? 0 = some ⟨2, 1⟩ := rfl
  obtain ⟨turn₂, h₂, hfault, hc₂⟩ : ∃ turn, turn₁.after.push g 2 (wordAt 2) = some turn ∧
      turn.result = .error (.unexpectedToken .identifier "a" l (turn.after.expected g)) ∧
      turn.after.symbols = [2] := by
    simp [push, g, lone_terminal?_identifier, wordAt, settle, state, hc₁,
      ParseTable.lone_action?, reduce, hproduction, hgoto, initialState, enter, leave, siteOf,
      symbols, l]
  have hreach : Reachable g turn₁.after := .push (.start ()) h₁
  have hfound : ¬ (ParseError.unexpectedToken .identifier "a" l
      (turn₂.after.expected g)).IsMissingGoto := by
    rintro ⟨_, _, _, hfault⟩
    cases hfault
  exact ⟨turn₁.after, turn₂, _, hreach, h₂, hfault, hfound, hc₂,
    refuses_of_failed hreach h₂ hfault hfound⟩

end Configuration

end ScriptReader
