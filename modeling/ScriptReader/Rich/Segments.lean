import ScriptReader.Rich.Body
import ScriptReader.Token.Kind

/-!
# Rich strings taken apart

A rich string is cut into its quotes, its runs of literal text, its interpolations and the braces
around them.

## Main Definitions

* `Rich.Segment` — a piece of a rich string
* `Rich.segments` — the pieces of a text, in order

## Design Notes

Cutting loses nothing: the texts of the pieces, one after another, are the text that was cut.  The
text need not be a well-formed rich string; without a closing quote it ends in a run of literal
text, and an interpolation that is never closed has no closing brace.

A run of literal text stands before every quote but the first and before every opening brace, even
if it is empty.  Only at the very end is an empty run left out.
-/

namespace ScriptReader.Rich

/-- A piece of a rich string. -/
inductive Segment where
  /-- A piece that becomes a token of the given kind. -/
  | chunk (kind : TokenKind) (text : List Char)
  /-- The code of an interpolation, without its braces. -/
  | code (text : List Char)
  deriving DecidableEq, Repr

/-- The characters of a piece. -/
def Segment.text : Segment → List Char
  | .chunk _ text | .code text => text

/-- A run of literal text before further pieces; nothing if there is neither. -/
def literalThen (run : List Char) (rest : List Segment) : List Segment :=
  if run = [] ∧ rest = [] then [] else .chunk .stringLiteral run :: rest

/-- Cuts a text into the run of literal text that it begins with and the pieces after that.
`escaped` says that a backslash precedes the text. -/
def cut (escaped : Bool) : List Char → List Char × List Segment
  | [] => ([], [])
  | c :: cs =>
    if c = '"' ∧ ¬ escaped then
      let after := cut false cs
      ([], .chunk .quote [c] :: literalThen after.1 after.2)
    else if c = '{' ∧ ¬ escaped then
      let code := body cs
      match _h : cs.drop code.length with
      | [] => ([], [.chunk .openBrace [c], .code code])
      | d :: ds =>
        let after := cut false ds
        ([], .chunk .openBrace [c] :: .code code :: .chunk .closeBrace [d] ::
          literalThen after.1 after.2)
    else
      let after := cut (c = '\\' ∧ ¬ escaped) cs
      (c :: after.1, after.2)
  termination_by cs => cs.length
  decreasing_by
    · simp
    · have hlen := congrArg List.length _h
      simp only [List.length_drop, List.length_cons] at hlen ⊢
      omega
    · simp

/-- The pieces of a rich string. -/
def segments : List Char → List Segment
  | [] => []
  | c :: cs =>
    if c = '"' then
      let after := cut false cs
      .chunk .quote [c] :: literalThen after.1 after.2
    else
      let whole := cut false (c :: cs)
      literalThen whole.1 whole.2

end ScriptReader.Rich
