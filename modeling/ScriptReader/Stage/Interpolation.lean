import ScriptReader.Rich.Segments
import ScriptReader.Stage.Basic

/-!
# Interpolation

Rich strings are replaced by the tokens of their parts.  The code of an interpolation is read like a
source of its own, and its tokens take the place that the code has in the enclosing source.

## Main Definitions

* `Rich.expand` — the tokens that stand for a rich string
* `Stage.interpolation` — replaces every rich string

## Design Notes

How code is read is a parameter, a function from texts to tokens.  Each part of the string becomes a
chunk of the token, placed by the bytes of the parts before it.  Since the parts make up the whole
text, a chunk has the text of its part, and nothing need be cut out of the token again.
-/

namespace ScriptReader

/-- The tokens that stand for the given parts of the rich string `t`, the first of which begins
`skip` bytes into it.  `read` reads the code of interpolations. -/
def Rich.expandFrom (read : String → List Token) (t : Token) (skip : Nat) :
    List Rich.Segment → List Token
  | [] => []
  | part :: rest =>
    let size := Text.byteCount part.text
    let tokens := match part with
      | .chunk kind text =>
        [{ kind := kind, text := String.ofList text, span := t.span.slice skip size }]
      | .code text =>
        (read (String.ofList text)).map (·.shifted (t.span.start.plus skip))
    tokens ++ Rich.expandFrom read t (skip + size) rest

/-- The tokens that stand for the rich string `t`. -/
def Rich.expand (read : String → List Token) (t : Token) : List Token :=
  expandFrom read t 0 (segments t.text.toList)

/-- Replaces rich strings by the tokens of their parts. -/
def Stage.interpolation (read : String → List Token) : Stage where
  name := "interpolation"
  State := Unit
  start := ()
  step _ t _ := .settled () (if t.kind = .richString then Rich.expand read t else [t])
  atEnd _ _ := []

end ScriptReader
