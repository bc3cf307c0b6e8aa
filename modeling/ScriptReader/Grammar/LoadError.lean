/-!
# What may be wrong with an encoded table

Tables are made elsewhere and come in as text.  Loading one may fail.
-/

namespace ScriptReader

/-- Why a table cannot be loaded. -/
inductive LoadError where
  /-- There is no symbol of this name or number. -/
  | unknownSymbol (name : String)
  /-- A key is not of the form state, dash, symbol. -/
  | badKey (key : String)
  /-- An action is not written as one. -/
  | badAction (text : String)
  /-- An action is given for a nonterminal. -/
  | expectedTerminal (name : String)
  /-- A terminal stands where only a nonterminal may. -/
  | expectedNonterminal (name : String)
  deriving DecidableEq, Repr

/-- What is said about a table that cannot be loaded. -/
def LoadError.message : LoadError → String
  | .unknownSymbol name => s!"unknown grammar symbol `{name}`"
  | .badKey key => s!"malformed table key `{key}`"
  | .badAction text => s!"malformed table action `{text}`"
  | .expectedTerminal name =>
    s!"actions are keyed by terminals, but `{name}` is a nonterminal"
  | .expectedNonterminal name => s!"expected nonterminal, but `{name}` is a terminal"

end ScriptReader
