import ScriptReader.Proofs.Grammar.Numbering
import ScriptReader.Proofs.Parse.Failures

/-!
# What could have come next

A token or an end of input that cannot come where it does is reported with the names of what could
have come instead.  These are all the terminals for which the state that has been reached has an
action, and the one that was not wanted is never among them.

## Main Definitions

* `ParseTable.ListsActions` — a list holds the terminals for which a state has an action
* `ParseTable.AcceptsEnd` — tables accept the end of input only, and never shift it
* `Configuration.TellsExpected` — errors name what could have come next

## Main Statements

* `ParseTable.Built.listsActions_expected` — the terminals for which a state has an action are
  listed in order of their numbers
* `ParseTable.not_mem_names_of_get?` — a name is not listed if its symbol has no action
* `Configuration.tellsExpected_of_built` — errors name what could have come next
-/

namespace ScriptReader

/-! ## Actions of a state -/

namespace ParseTable

variable {t : ParseTable} {p : StateId} {x : SymbolId} {terminals nonterminals : List String}

theorem mem_expected_iff : x ∈ t.expected p ↔ (t.action? p x).isSome = true := by
  rw [expected, List.mem_mergeSort, List.mem_map, action?, Std.HashMap.isSome_getElem?_iff_mem]
  constructor
  · rintro ⟨⟨q, x⟩, hkey, rfl⟩
    obtain ⟨hmem, hq⟩ := List.mem_filter.1 hkey
    obtain rfl := eq_of_beq hq
    exact Std.HashMap.mem_keys.1 hmem
  · intro hmem
    exact ⟨(p, x), List.mem_filter.2 ⟨Std.HashMap.mem_keys.2 hmem, BEq.rfl⟩, rfl⟩

/-- No terminal is listed twice: of the keys of actions, those of one state differ in the
terminal. -/
theorem nodup_expected (t : ParseTable) (p : StateId) : (t.expected p).Nodup := by
  rw [expected, (List.mergeSort_perm _ _).nodup_iff]
  refine (Std.HashMap.nodup_keys.filter _).map_on ?_
  intro ⟨q, x⟩ hkey ⟨q', x'⟩ hkey' hsame
  obtain rfl := eq_of_beq (List.mem_filter.1 hkey).2
  obtain rfl := eq_of_beq (List.mem_filter.1 hkey').2
  obtain rfl : x = x' := hsame
  rfl

theorem pairwise_lt_expected (t : ParseTable) (p : StateId) :
    (t.expected p).Pairwise (· < ·) := by
  have hle : (t.expected p).Pairwise (· ≤ ·) := by
    refine (List.pairwise_mergeSort ?_ ?_ _).imp fun h => decide_eq_true_iff.1 h
    · intro x y z hxy hyz
      exact decide_eq_true (UInt16.le_trans (decide_eq_true_iff.1 hxy) (decide_eq_true_iff.1 hyz))
    · intro x y
      simpa using UInt16.le_total x y
  exact hle.imp₂ (fun x y hxy hne => UInt16.lt_of_le_of_ne hxy hne) (t.nodup_expected p)

/-- The list `xs` holds the symbols for which the state `p` has an action, in order of their
numbers, and all of them are terminals. -/
structure ListsActions (t : ParseTable) (p : StateId) (xs : List SymbolId) : Prop where
  /-- Numbers go up. -/
  increasing : xs.Pairwise (· < ·)
  /-- Just the symbols that have an action are listed. -/
  mem_iff : ∀ x, x ∈ xs ↔ (t.action? p x).isSome = true
  /-- Symbols that have an action are terminals. -/
  terminal : ∀ x ∈ xs, t.symbols.isTerminal x = true

/-- The terminals for which a state has an action are listed in order of their numbers. -/
theorem Built.listsActions_expected (h : t.Built) (p : StateId) :
    t.ListsActions p (t.expected p) where
  increasing := t.pairwise_lt_expected p
  mem_iff _ := mem_expected_iff
  terminal x hx := by
    obtain ⟨a, ha⟩ := Option.isSome_iff_exists.1 (mem_expected_iff.1 hx)
    exact h.sorted.action ha

/-- There is no other such list. -/
theorem ListsActions.unique {xs ys : List SymbolId} (h : t.ListsActions p xs)
    (h' : t.ListsActions p ys) : xs = ys := by
  have hnodup {zs : List SymbolId} (h : zs.Pairwise (· < ·)) : zs.Nodup :=
    h.imp fun hlt => UInt16.ne_of_lt hlt
  have hperm : xs.Perm ys :=
    (List.perm_ext_iff_of_nodup (hnodup h.increasing) (hnodup h'.increasing)).2 fun x =>
      (h.mem_iff x).trans (h'.mem_iff x).symm
  refine hperm.eq_of_pairwise ?_ h.increasing h'.increasing
  intro x y _ _ hxy hyx
  exact absurd (UInt16.lt_trans hxy hyx) (UInt16.lt_irrefl x)

/-! ### Names of what is listed -/

/-- A name is not listed if its symbol has no action: a listed symbol of that name would be the same
one. -/
theorem not_mem_names_of_get? (ht : t.Built) (hnodup : t.symbols.names.toList.Nodup)
    {name : String} (hx : t.symbols.get? name = some x) (hnone : t.action? p x = none) :
    name ∉ (t.expected p).map t.symbols.name := by
  rw [List.mem_map]
  rintro ⟨y, hy, rfl⟩
  obtain ⟨a, ha⟩ := Option.isSome_iff_exists.1 (mem_expected_iff.1 hy)
  have hknown := (ht.closed.action ha).1
  rw [Symbols.get?_name hnodup hknown] at hx
  obtain rfl := Option.some.inj hx
  rw [hnone] at ha
  cases ha

/-- There is no action if there is none of each sort. -/
theorem action?_eq_none (shift : ∀ q, t.action? p x ≠ some (.shift q))
    (reduce : ∀ r, t.action? p x ≠ some (.reduce r)) (accept : t.action? p x ≠ some .accept) :
    t.action? p x = none := by
  cases hact : t.action? p x with
  | none => rfl
  | some a =>
    cases a with
    | shift q => exact absurd hact (shift q)
    | reduce r => exact absurd hact (reduce r)
    | accept => exact absurd hact accept

/-- The tables accept the end of input only, and never shift it. -/
structure AcceptsEnd (t : ParseTable) : Prop where
  /-- What is accepted is the end of input. -/
  accept : ∀ p x, t.action? p x = some .accept → x = Symbols.endId
  /-- The end of input is not shifted. -/
  shift : ∀ p q, t.action? p Symbols.endId ≠ some (.shift q)

end ParseTable

/-! ## Errors -/

namespace Configuration

variable {κ ν : Type} {g : Grammar κ ν} {terminals nonterminals : List String}

/-- Errors name what could have come next where the parse has got to. -/
structure TellsExpected (g : Grammar κ ν) (c : Configuration κ ν) : Prop where
  /-- The names are those of the terminals for which there is an action in the state that the
  reductions for a token have led to.  The terminal of the token is not one of them, whether it is
  given by its name or as that of the kind of the token. -/
  push : ∀ patience t turn kind text l names, c.push g patience t = some turn →
    turn.result = .error (.unexpectedToken kind text l names) →
    names = (g.table.expected turn.after.state).map g.table.symbols.name ∧
      (g.table.AcceptsEnd → t.kind.name ∉ names ∧
        ∀ x, g.terminal? t.kind = some x → g.table.symbols.name x ∉ names)
  /-- The same for the end of input. -/
  finish : ∀ patience turn l names, c.finish g patience = some turn →
    turn.result = .error (.unexpectedEnd l names) →
    names = (g.table.expected turn.after.state).map g.table.symbols.name ∧
      (g.table.AcceptsEnd → Symbols.endName ∉ names)

/-- **Errors name what could have come next.**  Let any tables be made for the symbols of some
names.  For each state they list the terminals that have an action there, and whatever has been
read, an error names those of the state that it has led to.  Neither the terminal of a token that
cannot come next nor the end of input is named where it cannot be, if tables accept the end of input
and nothing else. -/
theorem tellsExpected_of_built (ht : g.table.Built)
    (hsymbols : g.table.symbols = .ofNames terminals nonterminals) :
    (∀ p, g.table.ListsActions p (g.table.expected p)) ∧
      ∀ c : Configuration κ ν, c.TellsExpected g := by
  have hnodup : g.table.symbols.names.toList.Nodup := hsymbols ▸ Symbols.nodup_names_ofNames _ _
  refine ⟨ht.listsActions_expected, fun c => ⟨?_, ?_⟩⟩
  · intro patience t turn kind text l names pushed failed
    cases pushes_of_push pushed with
    | unknown => cases failed
    | shifted => cases failed
    | @unexpected x rs c' known _ still unshiftable =>
      cases failed
      refine ⟨rfl, fun haccepts => ?_⟩
      have hnone : g.table.action? c'.state x = none :=
        ParseTable.action?_eq_none unshiftable still fun hact =>
          (terminal_of_terminal? known).2 (haccepts.accept _ _ hact)
      have hget : g.table.symbols.get? t.kind.name = some x := (Option.filter_eq_some_iff.1 known).1
      refine ⟨ParseTable.not_mem_names_of_get? ht hnodup hget hnone, fun y hy => ?_⟩
      obtain rfl : x = y := Option.some.inj (known.symm.trans hy)
      exact ParseTable.not_mem_names_of_get? ht hnodup
        (Symbols.get?_name hnodup (Symbols.knows_of_get? hget)) hnone
    | stuck _ settled => cases settled <;> cases failed
  · intro patience turn l names finished failed
    cases finishes_of_finish finished with
    | accepted => cases failed
    | @unexpected rs c' _ still unaccepted =>
      cases failed
      refine ⟨rfl, fun haccepts => ?_⟩
      have hnone : g.table.action? c'.state Symbols.endId = none :=
        ParseTable.action?_eq_none (haccepts.shift _) still unaccepted
      have hend : g.table.symbols.get? Symbols.endName = some Symbols.endId := by
        rw [hsymbols]
        exact Symbols.get?_endName_ofNames terminals nonterminals
      exact ParseTable.not_mem_names_of_get? ht hnodup hend hnone
    | stuck settled => cases settled <;> cases failed

/-- In the tables of a single production, the first word is reduced before it turns out that a
second one cannot come.  By then only the end of input can. -/
theorem tellsExpected_lone :
    ParseTable.lone.Built ∧ ParseTable.lone.symbols = .ofNames ["id"] ["list"] ∧
      ParseTable.lone.AcceptsEnd ∧
      (∀ p, ParseTable.lone.ListsActions p (ParseTable.lone.expected p)) ∧
      ∃ (c : Configuration Unit Unit) (turn : Turn Unit Unit) (l : Location),
        c.push ⟨.lone, noValues⟩ 2 (wordAt 2) = some turn ∧
        turn.result = .error (.unexpectedToken .identifier "a" l ["$"]) ∧
        c.TellsExpected ⟨.lone, noValues⟩ ∧ "id" ∉ ["$"] := by
  let g : Grammar Unit Unit := ⟨.lone, noValues⟩
  let l : Location := .point default
  have haccepts : ParseTable.lone.AcceptsEnd := by
    constructor
    · intro p x hact
      rw [ParseTable.lone_action?] at hact
      grind [Symbols.endId]
    · intro p q hact
      rw [ParseTable.lone_action?] at hact
      grind [Symbols.endId]
  obtain ⟨hlists, htells⟩ := tellsExpected_of_built (g := g) ParseTable.lone_built rfl
  have hend : ParseTable.lone.ListsActions 1 [0] := by
    refine ⟨List.pairwise_singleton _ _, fun x => ?_, fun x hx => ?_⟩
    · rw [ParseTable.lone_action?]
      grind
    · obtain rfl := List.mem_singleton.1 hx
      exact ParseTable.lists_isTerminal 0
  have hlisted : ParseTable.lone.expected 1 = [0] := (hlists 1).unique hend
  let c : Configuration Unit Unit := ⟨(), [2], [1], [()], [l], default⟩
  obtain ⟨turn, hturn, hfault⟩ : ∃ turn, c.push g 2 (wordAt 2) = some turn ∧
      turn.result = .error (.unexpectedToken .identifier "a" l ["$"]) := by
    have hgoto : ParseTable.lone.goto? 0 2 = some 1 := by simp [ParseTable.lone, ParseTable.goto?]
    have hproduction : ParseTable.lone.production? 0 = some ⟨2, 1⟩ := rfl
    have hname : ParseTable.lone.symbols.name 0 = "$" := by
      show ParseTable.lists.symbols.name 0 = "$"
      rw [Symbols.name, ← Array.getElem?_toList, ParseTable.lists_names]
      rfl
    simp [push, g, c, lone_terminal?_identifier, wordAt, settle, state, ParseTable.lone_action?,
      reduce, hproduction, hgoto, initialState, enter, leave, siteOf, expected, hlisted, hname, l]
  have hnot := ((htells c).push 2 (wordAt 2) turn _ _ _ _ hturn hfault).2 haccepts
  exact ⟨ParseTable.lone_built, rfl, haccepts, hlists, c, turn, l, hturn, hfault, htells c, hnot.1⟩

end Configuration

end ScriptReader
