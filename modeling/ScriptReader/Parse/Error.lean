import ScriptReader.Diagnostic
import ScriptReader.Grammar.Action
import ScriptReader.Text.Alternatives
import ScriptReader.Token.Kind

/-!
# Why a parse fails

## Main Definitions

* `Inconsistency` — how tables may contradict themselves
* `ParseError` — why a parse fails
* `ParseError.message` — the failure in one line
* `ParseError.annotations` — the failure as annotations of the source
-/

namespace ScriptReader

/-- How tables may contradict themselves. -/
inductive Inconsistency where
  /-- An action names a production that does not exist. -/
  | unknownProduction (production : ProductionId)
  /-- A production is longer than what has been read. -/
  | stackUnderflow (production : ProductionId)
  /-- A reduced symbol leads nowhere. -/
  | missingGoto (symbol : String)
  deriving DecidableEq, Repr

/-- What is said about a fault. -/
def Inconsistency.message : Inconsistency → String
  | .unknownProduction p => s!"reduce by unknown production {p}"
  | .stackUnderflow p => s!"production {p} is longer than the parse stack"
  | .missingGoto symbol => s!"no goto for `{symbol}`"

/-- Why a parse fails. -/
inductive ParseError where
  /-- The grammar has no terminal for the kind of a token. -/
  | invalidToken (kind : TokenKind) (location : Location)
  /-- A token cannot come next; `expected` are the terminals that could. -/
  | unexpectedToken (kind : TokenKind) (text : String) (location : Location)
      (expected : List String)
  /-- The input cannot end here; `expected` are the terminals that could come next. -/
  | unexpectedEnd (location : Location) (expected : List String)
  /-- The tables contradict themselves in a state. -/
  | invalidTable (state : StateId) (fault : Inconsistency) (location : Location)
  deriving DecidableEq, Repr

namespace ParseError

/-- Where the parse failed. -/
def location : ParseError → Location
  | .invalidToken _ l | .unexpectedToken _ _ l _ | .unexpectedEnd l _ | .invalidTable _ _ l => l

/-- The terminals that could have come next. -/
def expected : ParseError → List String
  | .unexpectedToken _ _ _ e | .unexpectedEnd _ e => e
  | .invalidToken _ _ | .invalidTable _ _ _ => []

/-- How names are quoted in messages. -/
def quoting : Quoting := .ticked .plain

/-- What could have come next, as a clause. -/
def expectation (expected : List String) : String := "expected " ++ quoting.list expected

/-- The same clause at the end of a message, if there is anything to say. -/
def suffix (expected : List String) : String :=
  if expected.isEmpty then "" else "; " ++ expectation expected

/-- The failure in one line. -/
def message : ParseError → String
  | .invalidToken kind _ =>
    s!"token kind {quoting.quote kind.name} is not recognized by this grammar"
  | .unexpectedToken kind text _ expected =>
    "unexpected " ++ quoting.quote (if text.isEmpty then kind.name else text) ++ suffix expected
  | .unexpectedEnd _ expected => "unexpected end of input" ++ suffix expected
  | .invalidTable state fault _ =>
    s!"malformed parse table in state {state}: {fault.message}"

/-- An error at a location, with a hint at what could have come next if that is known. -/
def complaint (l : Location) (label : String) (expected : List String) : List Annotation :=
  let a : Annotation := ⟨l, .error, some label⟩
  if expected.isEmpty then [a] else a.withHint (expectation expected)

/-- The failure as annotations of the source. -/
def annotations : ParseError → List Annotation
  | .invalidToken _ l => complaint l "this token cannot appear in any input" []
  | .unexpectedToken _ _ l expected => complaint l "unexpected token" expected
  | .unexpectedEnd l expected => complaint l "input ended here" expected
  | .invalidTable _ fault l =>
    [⟨l, .internalError, some fault.message⟩,
      ⟨l, .help, some "the grammar tables are inconsistent;"⟩,
      ⟨l, .help, some "  this is a bug in the parser generator."⟩]

end ParseError

end ScriptReader
