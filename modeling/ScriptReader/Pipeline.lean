import ScriptReader.Stage.Blocks
import ScriptReader.Stage.Groups
import ScriptReader.Stage.Interpolation
import ScriptReader.Stage.Newlines
import ScriptReader.Stage.Words

/-!
# Pipelines

A pipeline is a list of stages, each of which edits what the one before it lets out.

## Main Definitions

* `Pass` — the stages that there are
* `Pass.standard` — the order in which they turn lexemes into what grammars are written for
* `Pipeline.feed` — the stream that a pipeline makes of a stream
* `Pipeline.apply` — the tokens that it makes of a list of tokens

## Main Statements

* `Pipeline.tokens_feed` — streams and lists of tokens are edited alike
-/

namespace ScriptReader

/-- The stages that there are. -/
inductive Pass where
  | trivia | newlineElision | indentation | starOperator | functionLiteral | newlineCleanup
  | destructuring | cascade | memberName | interpolation | embeddedSnippet
  deriving DecidableEq, Repr

namespace Pass

/-- The order in which the stages turn lexemes into what grammars are written for. -/
def standard : List Pass :=
  [.trivia, .newlineElision, .indentation, .starOperator, .functionLiteral, .newlineCleanup,
    .destructuring, .cascade, .memberName, .interpolation, .embeddedSnippet]

/-- The stage itself.  `read` reads the code of interpolations. -/
def stage (read : String → List Token) : Pass → Stage
  | .trivia => .trivia
  | .newlineElision => .newlineElision
  | .indentation => .indentation
  | .starOperator => .starOperator
  | .functionLiteral => .functionLiteral
  | .newlineCleanup => .newlineCleanup
  | .destructuring => .destructuring
  | .cascade => .cascade
  | .memberName => .memberName
  | .interpolation => .interpolation read
  | .embeddedSnippet => .embeddedSnippet

/-- What the stage is called, however code is read. -/
def name (p : Pass) : String := (p.stage fun _ => []).name

/-- The stage of a name. -/
def ofName? (s : String) : Option Pass := standard.find? fun p => p.name == s

end Pass

/-- Stages in the order in which they edit a stream. -/
abbrev Pipeline := List Stage

namespace Pipeline

/-- The given stages, reading the code of interpolations by `read`. -/
def ofPasses (read : String → List Token) (passes : List Pass) : Pipeline :=
  passes.map (Pass.stage read)

/-- The stream that a pipeline makes of a stream. -/
def feed (stages : Pipeline) (f : Feed) : Feed := stages.foldl (fun f S => S.feed f) f

/-- The tokens that a pipeline makes of a list of tokens. -/
def apply (stages : Pipeline) (ts : List Token) : List Token :=
  stages.foldl (fun ts S => S.apply ts) ts

/-- Streams and lists of tokens are edited alike. -/
theorem tokens_feed (stages : Pipeline) (f : Feed) :
    (stages.feed f).tokens = stages.apply f.tokens := by
  induction stages generalizing f with
  | nil => rfl
  | cons S stages ih =>
    have h := ih (S.feed f)
    rwa [S.tokens_feed] at h

end Pipeline

end ScriptReader
