import ScriptReader.Proofs.Grammar.Tables
import ScriptReader.Proofs.Parse.Stacks

/-!
# The stacks are a path through the tables

The states on the stack are not just any states: each is reached from the one below it, by its
symbol, through an entry of the tables.  This holds between any two tokens of any run, whether the
tables fit together or not and whatever has failed before, since a reduction that fails takes off
whole frames or none.

## Main Definitions

* `ParseTable.Leads` — an entry leads from a state to a state by a symbol
* `Configuration.Traced` — each frame is reached from the ones below it by an entry
* `Configuration.KeepsPath` — the four stacks are of one height and spell a path from the initial
  state

## Main Statements

* `Configuration.Reachable.exists_traced` — whatever is pushed, the frames are traced
* `Configuration.keepsPath_of_reachable` — the same said of the stacks and their indices
-/

namespace ScriptReader

/-- An entry of the tables leads from the state `p` to the state `q` by the symbol `x`: a shift of a
terminal other than the end of input, or a goto. -/
inductive ParseTable.Leads (t : ParseTable) (p : StateId) (x : SymbolId) (q : StateId) : Prop
  | shift (terminal : t.symbols.isTerminal x = true) (notEnd : x ≠ Symbols.endId)
      (found : t.action? p x = some (.shift q))
  | goto (found : t.goto? p x = some q)

namespace Configuration

variable {κ ν : Type} {g : Grammar κ ν} {c : Configuration κ ν} {fs : List (Frame ν)}

/-! ## Frames -/

/-- Each frame is reached from the ones below it by an entry of the tables. -/
inductive Traced (t : ParseTable) : List (Frame ν) → Prop
  | nil : Traced t []
  | cons {f : Frame ν} {fs : List (Frame ν)} (below : Traced t fs)
      (leads : t.Leads (stateOf fs) f.symbol f.state) : Traced t (f :: fs)

theorem Traced.drop {t : ParseTable} (h : Traced t fs) (n : Nat) : Traced t (fs.drop n) := by
  induction h generalizing n with
  | nil => rw [List.drop_nil]; exact .nil
  | cons below leads ih =>
    cases n with
    | zero => exact .cons below leads
    | succ n => exact ih n

/-- The terminal of a kind is a terminal, and not the end of input. -/
theorem terminal_of_terminal? {kind : TokenKind} {x : SymbolId} (h : g.terminal? kind = some x) :
    g.table.symbols.isTerminal x = true ∧ x ≠ Symbols.endId := by
  have hx := (Option.filter_eq_some_iff.1 h).2
  rw [Bool.and_eq_true] at hx
  exact ⟨hx.1, bne_iff_ne.1 hx.2⟩

/-- **Whatever is pushed, the stacks hold frames that are traced.** -/
theorem Reachable.exists_traced (h : Reachable g c) : ∃ fs, c.Holds fs ∧ Traced g.table fs := by
  refine h.invariant (P := fun c => ∃ fs, c.Holds fs ∧ Traced g.table fs) ?_ ?_ ?_ ?_
  · intro context
    exact ⟨[], holds_start context, .nil⟩
  · rintro c c' p r ⟨fs, hc, hfs⟩ hr
    obtain ⟨production, target, -, -, hgoto, -, -, -, hc'⟩ := hc.completed hr
    exact ⟨_, hc', .cons (hfs.drop production.length) (.goto hgoto)⟩
  · rintro c c' p r ⟨fs, hc, hfs⟩ hr
    obtain ⟨production, -, -, -, -, -, -, hc'⟩ := hc.stranded hr
    exact ⟨_, hc', hfs.drop production.length⟩
  · rintro c x q t l ⟨fs, hc, hfs⟩ hknown hshift
    obtain ⟨hterminal, hend⟩ := terminal_of_terminal? hknown
    refine ⟨_, hc.shift q x t l, .cons hfs (.shift hterminal hend ?_)⟩
    rw [← hc.state_eq]
    exact hshift

/-! ## Stacks and indices -/

/-- The four stacks are of one height, and each state is reached from the one before it, the first
from the initial state, by the symbol at the same place: by a shift if that is a terminal, and then
it is not the end of input, or else by a goto. -/
structure KeepsPath (t : ParseTable) (c : Configuration κ ν) : Prop where
  /-- The stacks are of one height. -/
  aligned : c.Aligned
  /-- The symbol at place `i` leads from the state before it to the one at its place. -/
  step : ∀ (i : Nat) (x : SymbolId), c.symbols[i]? = some x →
    ∃ p q, (initialState :: c.states)[i]? = some p ∧ c.states[i]? = some q ∧
      ((t.symbols.isTerminal x = true ∧ x ≠ Symbols.endId ∧ t.action? p x = some (.shift q)) ∨
        (t.symbols.isTerminal x = false ∧ t.goto? p x = some q))

/-- The states below a symbol end in the state that it was read in. -/
theorem getElem?_initialState_cons (fs : List (Frame ν)) :
    (initialState :: (fs.map Frame.state).reverse)[fs.length]? = some (stateOf fs) := by
  cases fs with
  | nil => rfl
  | cons f fs => simp

/-- Along traced frames, each symbol leads from the state before it to its own. -/
theorem Traced.leads {t : ParseTable} (h : Traced t fs) {i : Nat} {x : SymbolId}
    (hx : (fs.map Frame.symbol).reverse[i]? = some x) :
    ∃ p q, (initialState :: (fs.map Frame.state).reverse)[i]? = some p ∧
      (fs.map Frame.state).reverse[i]? = some q ∧ t.Leads p x q := by
  induction h with
  | nil => simp at hx
  | @cons f fs below leads ih =>
    simp only [List.map_cons, List.reverse_cons] at hx ⊢
    rcases Nat.lt_or_ge i fs.length with hi | hi
    · -- A symbol further down: the columns of the frames below say it already.
      rw [List.getElem?_append_left (by simpa using hi)] at hx ⊢
      rw [← List.cons_append, List.getElem?_append_left (by simp; omega)]
      exact ih hx
    · obtain rfl : i = fs.length := by
        have hlast := (List.getElem?_eq_some_iff.1 hx).1
        simp only [List.length_append, List.length_reverse, List.length_map,
          List.length_singleton] at hlast
        omega
      have hsymbol : f.symbol = x := by simpa using hx
      subst hsymbol
      refine ⟨stateOf fs, f.state, ?_, by simp, leads⟩
      rw [← List.cons_append, List.getElem?_append_left (by simp)]
      exact getElem?_initialState_cons fs

/-- **The stacks keep to a path.**  Let any tables be made, with any semantics, and any tokens be
pushed, some of which may fail: between any two of them the four stacks are of one height and spell
a path through the tables from the initial state. -/
theorem keepsPath_of_reachable (ht : g.table.Built) (h : Reachable g c) :
    c.KeepsPath g.table := by
  obtain ⟨fs, hc, hfs⟩ := h.exists_traced
  refine ⟨hc.aligned, ?_⟩
  intro i x hx
  rw [symbols, hc.symbols] at hx
  obtain ⟨p, q, hp, hq, hleads⟩ := hfs.leads hx
  rw [states, hc.states]
  refine ⟨p, q, hp, hq, ?_⟩
  cases hleads with
  | shift terminal notEnd found => exact .inl ⟨terminal, notEnd, found⟩
  | goto found => exact .inr ⟨ht.sorted.goto found, found⟩

/-! ## An example -/

theorem lists_terminal?_identifier (m : Semantics κ ν) :
    (Grammar.mk .lists m).terminal? .identifier = some 1 := by
  simp [Grammar.terminal?, TokenKind.name, ParseTable.lists_get?_id, ParseTable.lists_isTerminal,
    Symbols.endId]

theorem lists_terminal?_comma (m : Semantics κ ν) :
    (Grammar.mk .lists m).terminal? .comma = none := by
  have hnone : ParseTable.lists.symbols.get? TokenKind.comma.name = none :=
    (ParseTable.lists_get? _).trans (by decide)
  rw [Grammar.terminal?, hnone, Option.filter_none]

/-- A semantics without any values to speak of. -/
def noValues : Semantics Unit Unit where
  ofToken _ := ()
  blank := ()

/-- The word `a` at offset `i`. -/
def wordAt (i : Offset) : Token := { kind := .identifier, text := "a", span := ⟨i, i + 1⟩ }

/-- The stacks after a word, a comma that lists do not have, and another word. -/
theorem keepsPath_lists :
    ParseTable.lists.Built ∧ ∃ c : Configuration Unit Unit, Reachable ⟨.lists, noValues⟩ c ∧
      c.symbols = [2, 1] ∧ c.states = [1, 3] ∧ c.KeepsPath .lists := by
  let g : Grammar Unit Unit := ⟨.lists, noValues⟩
  let l : Location := .point default
  obtain ⟨turn₁, h₁, hc₁⟩ : ∃ turn, (start ()).push g 1 (wordAt 0) = some turn ∧
      turn.after = ⟨(), [2], [1], [()], [l], default⟩ := by
    simp [push, g, lists_terminal?_identifier, wordAt, settle, state, start,
      ParseTable.lists_action?, initialState, shift, enter, siteOf, Location.point, noValues, l]
  obtain ⟨turn₂, h₂, hc₂⟩ : ∃ turn, turn₁.after.push g 1 (Token.mark .comma 2) = some turn ∧
      turn.after = turn₁.after ∧ turn.result = .error (.invalidToken .comma l) := by
    simp [push, g, lists_terminal?_comma, Token.mark, siteOf, hc₁, l]
  obtain ⟨turn₃, h₃, hc₃⟩ : ∃ turn, turn₂.after.push g 2 (wordAt 4) = some turn ∧
      turn.after = ⟨(), [3, 1], [1, 2], [(), ()], [l, l], default⟩ := by
    simp [push, g, lists_terminal?_identifier, wordAt, settle, state, hc₂, hc₁,
      ParseTable.lists_action?, reduce, ParseTable.lists_production?, ParseTable.lists_goto?,
      initialState, shift, enter, leave, extent, siteOf, Location.point, Location.through,
      Semantics.reduce, noValues, l]
  have hreach : Reachable g turn₃.after := .push (.push (.push (.start ()) h₁) h₂) h₃
  refine ⟨ParseTable.lists_built, turn₃.after, hreach, ?_, ?_,
    keepsPath_of_reachable ParseTable.lists_built hreach⟩
  · rw [hc₃]; rfl
  · rw [hc₃]; rfl

end Configuration

end ScriptReader
