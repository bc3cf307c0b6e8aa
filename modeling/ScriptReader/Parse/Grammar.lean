import ScriptReader.Grammar.ParseTable
import ScriptReader.Token.Basic

/-!
# Grammars

A grammar is a set of tables together with what is made of the things that they recognise.

## Main Definitions

* `Semantics` — values of tokens and of productions
* `Grammar` — tables with a semantics
* `Grammar.terminal?` — the terminal of a kind of token

## Design Notes

Values of type `ν` are built up along a parse, in a context of type `κ` that is threaded through it.
The parser only carries values around.  A production without a reducer has the value of its first
symbol.
-/

namespace ScriptReader

/-- What is made of the tokens and the productions that are recognised. -/
structure Semantics (κ ν : Type) where
  /-- The value of a token. -/
  ofToken : Token → ν
  /-- The value of nothing at all. -/
  blank : ν
  /-- The reducer of a production: from the values of its symbols and the location of all of them,
  in a context, to the value of the whole and the context afterwards. -/
  reducer? : ProductionId → Option (κ → List ν → Location → κ × ν) := fun _ => none
  /-- The context after it has been told that a production is about to be reduced. -/
  started : κ → ProductionId → List ν → Location → κ := fun c _ _ _ => c
  /-- The context after it has been told what a production has been reduced to. -/
  ended : κ → ProductionId → ν → Location → κ := fun c _ _ _ => c

namespace Semantics

variable {κ ν : Type}

/-- The same semantics but for the reducer of one production. -/
def withReducer (m : Semantics κ ν) (p : ProductionId)
    (reducer : κ → List ν → Location → κ × ν) : Semantics κ ν :=
  { m with reducer? := fun q => if q = p then some reducer else m.reducer? q }

/-- Reduces a production from the values of its symbols, telling the context before and after. -/
def reduce (m : Semantics κ ν) (c : κ) (p : ProductionId) (values : List ν) (l : Location) :
    κ × ν :=
  let told := m.started c p values l
  let made := match m.reducer? p with
    | some reducer => reducer told values l
    | none => (told, values.head?.getD m.blank)
  (m.ended made.1 p made.2 l, made.2)

end Semantics

/-- Tables with a semantics. -/
structure Grammar (κ ν : Type) where
  /-- The tables. -/
  table : ParseTable
  /-- What is made of what they recognise. -/
  semantics : Semantics κ ν

namespace Grammar

variable {κ ν : Type}

/-- The terminal of a kind of token: the one of the same name, which must not be the end of
input. -/
def terminal? (g : Grammar κ ν) (kind : TokenKind) : Option SymbolId :=
  (g.table.symbols.get? kind.name).filter fun id =>
    g.table.symbols.isTerminal id && id != Symbols.endId

/-- The kinds that have a terminal, each with it. -/
def terminals (g : Grammar κ ν) : List (TokenKind × SymbolId) :=
  TokenKind.all.filterMap fun kind => (g.terminal? kind).map (kind, ·)

end Grammar

end ScriptReader
