import ScriptReader.Pipeline
import ScriptReader.Source.LineMap

/-!
# Reading a source

The way from the text of a source to the tokens that a grammar is written for.

## Main Definitions

* `tokenize` — the tokens of a source, after all standard stages
* `tokenizeWith` — the same with further stages after those
* `locatedTokens` — the same with lines and columns

## Design Notes

The code of an interpolation is read in the same way as the source around it.  It is a part of that
source without the quotes and braces around it, and so shorter; reading ends because only shorter
code is ever read.
-/

namespace ScriptReader

/-- The tokens of a source. -/
def tokenize (source : String) : List Token :=
  Pipeline.apply
    (.ofPasses
      (fun code => if code.utf8ByteSize < source.utf8ByteSize then tokenize code else [])
      Pass.standard)
    (lex source)
  termination_by source.utf8ByteSize

/-- The tokens of a source, edited further by `more` stages.  These do not reach the code of
interpolations on its own. -/
def tokenizeWith (more : List Pass) (source : String) : List Token :=
  Pipeline.apply (.ofPasses tokenize more) (tokenize source)

/-- The tokens of a source with their locations. -/
def locatedTokens (source : String) : List Token :=
  (tokenize source).map (LineMap.ofSource source).locate

end ScriptReader
