import Std.Data.HashMap
import ScriptReader.Grammar.Action
import ScriptReader.Grammar.Symbols

/-!
# Parse tables

The tables that drive the parser: what to do in a state on a terminal, where to go from a state on a
nonterminal, and the productions.

## Main Definitions

* `ParseTable` — the tables
* `ParseTable.decodeKey` — reads the key of an encoded entry
* `ParseTable.ofEncoded` — loads tables
* `ParseTable.withAction`, `ParseTable.withGoto`, `ParseTable.withProduction` — add one entry by the
  name of its symbol
* `ParseTable.expected` — the terminals for which a state has an action

## Design Notes

A later entry replaces an earlier one with the same key.  Nothing is checked but that actions belong
to terminals and gotos and productions to nonterminals; whether the tables fit together shows when
they are run.
-/

namespace ScriptReader

/-- A production, of which only the shape matters. -/
structure Production where
  /-- The symbol on the left-hand side. -/
  lhs : SymbolId
  /-- The number of symbols on the right-hand side. -/
  length : Nat
  deriving DecidableEq, Repr

/-- The tables that drive the parser. -/
structure ParseTable where
  /-- The symbols that the tables speak of. -/
  symbols : Symbols
  /-- What to do in a state on a terminal. -/
  actions : Std.HashMap (StateId × SymbolId) Action := {}
  /-- Where to go from a state on a nonterminal. -/
  gotos : Std.HashMap (StateId × SymbolId) StateId := {}
  /-- The productions, by number. -/
  productions : Array Production := #[]

namespace ParseTable

/-- Tables without entries. -/
def ofSymbols (symbols : Symbols) : ParseTable := { symbols := symbols }

/-! ### Entries -/

/-- What to do in a state on a terminal. -/
def action? (t : ParseTable) (state : StateId) (terminal : SymbolId) : Option Action :=
  t.actions[(state, terminal)]?

/-- Where to go from a state on a nonterminal. -/
def goto? (t : ParseTable) (state : StateId) (nonterminal : SymbolId) : Option StateId :=
  t.gotos[(state, nonterminal)]?

/-- The production with the given number. -/
def production? (t : ParseTable) (p : ProductionId) : Option Production :=
  t.productions[p.toNat]?

/-- The terminals for which a state has an action, in order of their numbers. -/
def expected (t : ParseTable) (state : StateId) : List SymbolId :=
  ((t.actions.keys.filter fun key => key.1 == state).map Prod.snd).mergeSort (· ≤ ·)

/-! ### Adding entries -/

/-- The symbol of the given name. -/
def lookup (t : ParseTable) (name : String) : Except LoadError SymbolId :=
  match t.symbols.get? name with
  | some id => .ok id
  | none => .error (.unknownSymbol name)

/-- The tables with an action, which only terminals have. -/
def setAction (t : ParseTable) (state : StateId) (symbol : SymbolId) (action : Action) :
    Except LoadError ParseTable :=
  if t.symbols.isTerminal symbol then
    .ok { t with actions := t.actions.insert (state, symbol) action }
  else .error (.expectedTerminal (t.symbols.name symbol))

/-- The tables with a goto, which only nonterminals have. -/
def setGoto (t : ParseTable) (state : StateId) (symbol : SymbolId) (target : StateId) :
    Except LoadError ParseTable :=
  if t.symbols.isTerminal symbol then
    .error (.expectedNonterminal (t.symbols.name symbol))
  else .ok { t with gotos := t.gotos.insert (state, symbol) target }

/-- The tables with an action on the terminal of the given name. -/
def withAction (t : ParseTable) (state : StateId) (terminal : String) (action : Action) :
    Except LoadError ParseTable := do
  t.setAction state (← t.lookup terminal) action

/-- The tables with a goto on the nonterminal of the given name. -/
def withGoto (t : ParseTable) (state : StateId) (nonterminal : String) (target : StateId) :
    Except LoadError ParseTable := do
  t.setGoto state (← t.lookup nonterminal) target

/-- The tables with one more production, for the nonterminal of the given name. -/
def withProduction (t : ParseTable) (lhs : String) (length : Nat) :
    Except LoadError ParseTable := do
  let symbol ← t.lookup lhs
  if t.symbols.isTerminal symbol then
    .error (.expectedNonterminal (t.symbols.name symbol))
  else .ok { t with productions := t.productions.push ⟨symbol, length⟩ }

/-! ### Loading -/

/-- Reads the key of an entry: the numbers of a state and of a symbol, with a dash between them. -/
def decodeKey (t : ParseTable) (key : String) : Except LoadError (StateId × SymbolId) :=
  match key.toList.span (· ≠ '-') with
  | (_, []) => .error (.badKey key)
  | (state, _ :: symbol) =>
    match Numeral.read? UInt32.size state, Numeral.read? UInt16.size symbol with
    | some state, some symbol =>
      match t.symbols.ofId? (UInt16.ofNat symbol) with
      | some id => .ok (UInt32.ofNat state, id)
      | none => .error (.unknownSymbol (toString symbol))
    | _, _ => .error (.badKey key)

/-- The tables with one more encoded action. -/
def addAction (t : ParseTable) (entry : String × String) : Except LoadError ParseTable := do
  let (state, symbol) ← t.decodeKey entry.1
  t.setAction state symbol (← Action.parse entry.2)

/-- The tables with one more encoded goto. -/
def addGoto (t : ParseTable) (entry : String × StateId) : Except LoadError ParseTable := do
  let (state, symbol) ← t.decodeKey entry.1
  t.setGoto state symbol entry.2

/-- Loads tables: the actions and gotos by encoded keys, the productions by the name and the length
of their sides.  The first fault found is reported. -/
def ofEncoded (symbols : Symbols) (actions : List (String × String))
    (gotos : List (String × StateId)) (productions : List (String × Nat)) :
    Except LoadError ParseTable := do
  let t ← actions.foldlM addAction (ofSymbols symbols)
  let t ← gotos.foldlM addGoto t
  productions.foldlM (fun t p => t.withProduction p.1 p.2) t

end ParseTable

end ScriptReader
