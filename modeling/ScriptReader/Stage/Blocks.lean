import ScriptReader.Lexeme
import ScriptReader.Stage.Basic

/-!
# Implicit blocks

A block is opened by a newline after certain words, and stays open as long as the lines are indented
as far as its first one.  This stage makes the extent of such blocks explicit.

## Main Definitions

* `Enclosure` — what the text at hand stands in
* `Stage.indentation` — marks the start and the end of implicit blocks

## Design Notes

Braces and blocks enclose each other.  A closing brace ends the blocks that were opened since its
opening brace; one without an opening brace ends nothing.  A newline ends the blocks that are
indented further than the line it begins, but none that lies outside the innermost brace.
-/

namespace ScriptReader

/-- What a text stands in. -/
inductive Enclosure where
  /-- A pair of braces. -/
  | brace
  /-- An implicit block whose first line is indented by `width` characters. -/
  | block (width : Nat)
  deriving DecidableEq, Repr

namespace Enclosure

/-- Whether this is an implicit block. -/
def isBlock : Enclosure → Bool
  | .brace => false
  | .block _ => true

/-- Whether this is an implicit block that a line indented by `width` characters is not part of. -/
def isWiderThan (width : Nat) : Enclosure → Bool
  | .brace => false
  | .block w => width < w

end Enclosure

namespace Stage

/-- Words after which a newline opens a block. -/
def blockWords : List TokenKind := [.tryWord, .finallyWord, .elseWord, .doWord]

/-- The number of blanks after the last line break of a newline. -/
def indentWidth (t : Token) : Nat := (t.text.toList.reverse.takeWhile Lexeme.isBlank).length

/-- Marks at `a` for the end of each of the enclosures that is a block. -/
def dedents (a : Offset) (closed : List Enclosure) : List Token :=
  (closed.filter Enclosure.isBlock).map fun _ => .mark .dedent a

/-- Marks the start and the end of implicit blocks. -/
def indentation : Stage where
  name := "indentation"
  State := List Enclosure
  start := []
  step around t h :=
    match t.kind with
    | .openBrace => .settled (.brace :: around) [t]
    | .closeBrace =>
      if around.contains .brace then
        .settled (around.dropWhile Enclosure.isBlock).tail
          (dedents t.span.start (around.takeWhile Enclosure.isBlock) ++ [t])
      else .settled around [t]
    | .newline =>
      let width := indentWidth t
      if (h.lookBack 1).any blockWords.contains then
        .settled (.block width :: around) [.mark .indent t.span.start, t]
      else
        .settled (around.dropWhile (Enclosure.isWiderThan width))
          (dedents t.span.start (around.takeWhile (Enclosure.isWiderThan width)) ++ [t])
    | _ => .settled around [t]
  atEnd around h := dedents h.offset around

end Stage

end ScriptReader
