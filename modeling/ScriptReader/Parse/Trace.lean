import ScriptReader.Parse.Configuration
import ScriptReader.Text.Dump

/-!
# Traces of a parse

What the parser did with a token, step by step, for whoever debugs a grammar.

## Main Definitions

* `TraceEvent` — a step
* `Turn.trace` — the steps of a turn
* `TraceEvent.render` — a step as text

## Design Notes

A trace is read off a turn and the state before it; the parser knows nothing of traces.
-/

namespace ScriptReader

/-! ### Dumps of tokens and errors -/

/-- The name of a kind in dumps. -/
def TokenKind.tag : TokenKind → String
  | .blank => "Ws"
  | .comment => "Comment"
  | .newline => "Newline"
  | .simpleString => "SimpleString"
  | .richString => "RichString"
  | .embedded => "Embedded"
  | .number => "Number"
  | .identifier => "Id"
  | .self => "This"
  | .symbolRef => "SymbolRef"
  | .trueWord => "True"
  | .falseWord => "False"
  | .nullWord => "Null"
  | .undefinedWord => "Undefined"
  | .defWord => "Def"
  | .inWord => "In"
  | .onWord => "On"
  | .doWord => "Do"
  | .forWord => "For"
  | .andWord => "And"
  | .orWord => "Or"
  | .notWord => "Not"
  | .ifWord => "If"
  | .elseWord => "Else"
  | .returnWord => "Return"
  | .whileWord => "While"
  | .functionWord => "Function"
  | .awaitWord => "Await"
  | .yieldWord => "Yield"
  | .breakWord => "Break"
  | .continueWord => "Continue"
  | .tryWord => "Try"
  | .catchWord => "Catch"
  | .finallyWord => "Finally"
  | .throwWord => "Throw"
  | .newWord => "New"
  | .classWord => "Class"
  | .staticWord => "Static"
  | .importWord => "Import"
  | .exportWord => "Export"
  | .asWord => "As"
  | .fromWord => "From"
  | .defaultWord => "Default"
  | .openBrace => "LBrace"
  | .closeBrace => "RBrace"
  | .openBracket => "LBracket"
  | .closeBracket => "RBracket"
  | .openParen => "LParen"
  | .closeParen => "RParen"
  | .pipes => "Pipes"
  | .thinArrow => "Arrow"
  | .fatArrow => "FatArrow"
  | .comparison => "Compare"
  | .reassignment => "Reassign"
  | .equals => "Assign"
  | .define => "Define"
  | .dot => "Dot"
  | .ellipsis => "Spread"
  | .comma => "Comma"
  | .colon => "Colon"
  | .tilde => "Tilde"
  | .tildeStar => "TildeStar"
  | .additive => "Linear"
  | .multiplicative => "Scalar"
  | .power => "Pow"
  | .bang => "Bang"
  | .indent => "Indent"
  | .dedent => "Dedent"
  | .functionMark => "Fn"
  | .patternMark => "AssignMarker"
  | .receiverMark => "Obj"
  | .cascadeRef => "Ref"
  | .star => "Star"
  | .stringLiteral => "StringLiteral"
  | .quote => "Quote"
  | .embeddedLine => "EmbeddedSingleLine"
  | .embeddedBlock => "EmbeddedMultiLine"

/-- The structure of a position. -/
def Position.dump (p : Position) : Dump :=
  .record "Position" [("line", .number p.line.toNat), ("column", .number p.column.toNat)]

/-- The structure of a location. -/
def Location.dump (l : Location) : Dump :=
  .record "SourceLocation" [("start", l.start.dump), ("end", l.stop.dump)]

/-- The structure of a span. -/
def Span.dump (s : Span) : Dump :=
  .record "Span" [("start", .number s.start.toNat), ("end", .number s.stop.toNat)]

/-- The structure of a token. -/
def Token.dump (t : Token) : Dump :=
  .record "Token"
    [("kind", .atom t.kind.tag), ("text", .text t.text), ("span", t.span.dump),
      ("loc", .option (t.location.map Location.dump))]

/-- The structure of a fault. -/
def Inconsistency.dump : Inconsistency → Dump
  | .unknownProduction p => .call "UnknownProduction" [.number p.toNat]
  | .stackUnderflow p => .call "StackUnderflow" [.number p.toNat]
  | .missingGoto symbol => .call "MissingGoto" [.text symbol]

/-- The structure of an error. -/
def ParseError.dump : ParseError → Dump
  | .invalidToken kind l => .record "InvalidToken" [("kind", .atom kind.tag), ("loc", l.dump)]
  | .unexpectedToken kind text l expected =>
    .record "UnexpectedToken"
      [("kind", .atom kind.tag), ("text", .text text), ("loc", l.dump),
        ("expected", .list (expected.map .text))]
  | .unexpectedEnd l expected =>
    .record "UnexpectedEnd" [("loc", l.dump), ("expected", .list (expected.map .text))]
  | .invalidTable state fault l =>
    .record "InvalidTable"
      [("state", .number state.toNat), ("fault", fault.dump), ("loc", l.dump)]

/-! ### Steps -/

/-- A step of the parser. -/
inductive TraceEvent where
  /-- A token, or the end of input, comes up in a state. -/
  | opened (state : StateId) (input : Option Token)
  /-- A production is reduced. -/
  | reduced (production : ProductionId) (lhs : String) (length : Nat) (location : Location)
  /-- The parser is done with the token and stops in a state, with an error if it failed. -/
  | closed (state : StateId) (error : Option ParseError)
  deriving DecidableEq, Repr

/-- The steps of a turn that began in the state `before`, with a token or the end of input. -/
def Turn.trace {κ ν : Type} (g : Grammar κ ν) (before : StateId) (input : Option Token)
    (turn : Turn κ ν) : List TraceEvent :=
  let reductions := turn.reductions.map fun r =>
    TraceEvent.reduced r.production (g.table.symbols.name r.lhs) r.length r.location
  let error := match turn.result with
    | .error fault => some fault
    | .ok () => none
  .opened before input :: (reductions ++ [.closed turn.after.state error])

namespace TraceEvent

/-- How the input is written: the end of input by the name of its terminal. -/
def inputText (input : Option Token) : String := (input.map toString).getD Symbols.endName

/-- The structure of the input. -/
def inputDump (input : Option Token) : Dump := (input.map Token.dump).getD (.text Symbols.endName)

/-- A step as text. -/
def render : TraceEvent → String
  | .opened state input =>
    s!"[Engine::push] state {state}\n| ==> tok: {inputText input}\n" ++
      s!"|  |  {(inputDump input).render}\n|\n"
  | .reduced production lhs length location =>
    s!"| ==> reduce r{production}: {lhs} <- {length} symbol(s) at {location}\n"
  | .closed state error =>
    s!"|\n| ==> state after tok is {state}.\n" ++
      (error.map fun e => s!"|\n| ==> !!! error: {e.message}.\n|  |  {e.dump.render}\n").getD "" ++
      "= note: this trace was output as a debugging aid because `cfg()`.\n\n"

end TraceEvent

end ScriptReader
