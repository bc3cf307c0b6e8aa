import Std.Data.HashMap

/-!
# Grammar symbols

The terminals and nonterminals of a grammar are numbered, and tables speak of them by number.

## Main Definitions

* `SymbolId` — the number of a symbol
* `Symbols` — the names of the symbols of a grammar, and their numbers
* `Symbols.add` — numbers one more name
* `Symbols.ofNames` — numbers the symbols of two lists of names
* `Symbols.get?` and `Symbols.name` — from names to numbers and back

## Design Notes

The end of input is the terminal `$` and has number zero.  Terminals come next and nonterminals
last, each name once, in order of first occurrence; which of the two a symbol is can be told from
its number alone.  Numbers are 16-bit words, which wrap around in a grammar of more symbols.

Names are found by number in an array and numbers by name in a map.  The map holds just the names in
the array, each with the number of its place; adding a name keeps this so, and nothing else changes
the two.
-/

namespace ScriptReader

/-- The number of a grammar symbol. -/
abbrev SymbolId := UInt16

/-- The names of the symbols of a grammar, and their numbers. -/
structure Symbols where
  /-- The names, by number. -/
  names : Array String
  /-- The numbers, by name. -/
  ids : Std.HashMap String SymbolId
  /-- The number from which on symbols are nonterminals. -/
  firstNonterminal : SymbolId
  /-- The number of a name is the place at which it stands. -/
  getElem?_ids : ∀ name, ids[name]? = (names.toList.idxOf? name).map UInt16.ofNat

namespace Symbols

/-- The number of the end of input. -/
def endId : SymbolId := 0

/-- The name of the end of input. -/
def endName : String := "$"

/-! ### Numbering names -/

/-- No symbols. -/
def empty : Symbols where
  names := #[]
  ids := ∅
  firstNonterminal := 0
  getElem?_ids _ := Std.HashMap.getElem?_empty

theorem mem_ids_iff (s : Symbols) (name : String) : name ∈ s.ids ↔ name ∈ s.names.toList := by
  rw [Std.HashMap.mem_iff_isSome_getElem?, s.getElem?_ids, Option.isSome_map, List.isSome_idxOf?]

/-- A name that is put at the end, where it has not been before, has the last place. -/
theorem idxOf?_concat {names : List String} {name : String} (hname : name ∉ names)
    (other : String) :
    (names ++ [name]).idxOf? other =
      if name = other then some names.length else names.idxOf? other := by
  have hone : [name].idxOf? other = if name = other then some 0 else none := by
    rw [List.idxOf?_cons, List.idxOf?_nil]
    simp only [beq_iff_eq, Option.map_none]
  unfold List.idxOf? at hone ⊢
  rw [List.findIdx?_append, hone]
  split
  case isTrue hsame =>
    have hnone : names.findIdx? (· == other) = none := List.idxOf?_eq_none_iff.2 (hsame ▸ hname)
    rw [hnone, Option.none_or, Option.map_some, Nat.zero_add]
  case isFalse => rw [Option.map_none, Option.or_none]

/-- Numbers a name, unless it has a number. -/
def add (s : Symbols) (name : String) : Symbols :=
  if h : name ∈ s.ids then s
  else
    { names := s.names.push name
      ids := s.ids.insert name (UInt16.ofNat s.names.size)
      firstNonterminal := s.firstNonterminal
      getElem?_ids := fun other => by
        rw [Std.HashMap.getElem?_insert, s.getElem?_ids, Array.toList_push,
          idxOf?_concat (mt (s.mem_ids_iff name).2 h), Array.length_toList]
        simp only [beq_iff_eq]
        split <;> rfl }

/-- The symbols with the given names of terminals and of nonterminals. -/
def ofNames (terminals nonterminals : List String) : Symbols :=
  let upToTerminals := terminals.foldl add (empty.add endName)
  nonterminals.foldl add
    { upToTerminals with firstNonterminal := UInt16.ofNat upToTerminals.names.size }

/-! ### Looking up -/

/-- The number of symbols. -/
def size (s : Symbols) : Nat := s.names.size

/-- The number of the symbol with the given name. -/
def get? (s : Symbols) (name : String) : Option SymbolId := s.ids[name]?

/-- The number `id`, if some symbol has it. -/
def ofId? (s : Symbols) (id : SymbolId) : Option SymbolId :=
  if id.toNat < s.size then some id else none

/-- The name of a symbol. -/
def name (s : Symbols) (id : SymbolId) : String := (s.names[id.toNat]?).getD "<unknown>"

/-- Whether a symbol is a terminal. -/
def isTerminal (s : Symbols) (id : SymbolId) : Bool := id < s.firstNonterminal

end Symbols

end ScriptReader
