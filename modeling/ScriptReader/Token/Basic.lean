import ScriptReader.Source.Location
import ScriptReader.Text.Bytes
import ScriptReader.Token.Kind

/-!
# Tokens

A token is a kind, the text it stands for and the place of that text.

## Main Definitions

* `Token` — a token of a source
* `Token.mark` — a token without text, which stands for structure rather than for words
* `Token.chunk` — a part of a token, as a token of its own
* `Token.shifted` — a token of a fragment as a token of the source that the fragment was cut from

## Design Notes

The text is carried along with the span, so that a token can be looked at without its source.  For
tokens that come from a source the two agree; nothing here relies on it.
-/

namespace ScriptReader

/-- A token of a source. -/
structure Token where
  /-- What the token is. -/
  kind : TokenKind
  /-- The text that the token stands for. -/
  text : String
  /-- Where that text lies in the source. -/
  span : Span
  /-- The same place in lines and columns, once it has been worked out. -/
  location : Option Location := none
  deriving DecidableEq, Repr, Inhabited

namespace Token

/-- A token of kind `k` that stands for no text, placed at offset `a`. -/
def mark (k : TokenKind) (a : Offset) : Token := { kind := k, text := "", span := .point a }

/-- Whether the token stands for no text at all. -/
def isMark (t : Token) : Bool := t.text.isEmpty && t.span.isEmpty

/-- The same text and place under another kind. -/
def withKind (t : Token) (k : TokenKind) : Token := { t with kind := k }

/-- A token of kind `k` for the `size` bytes that begin `skip` bytes into `t`.  The piece is cut
off at the end of `t`; it has a place but no text if it would split a character. -/
def chunk (t : Token) (k : TokenKind) (skip size : Nat) : Token :=
  let total := t.text.utf8ByteSize
  let start := min skip total
  { kind := k
    text := (Text.slice? t.text start (min (start + size) total)).getD ""
    span := t.span.slice skip size }

/-- The token moved forward by `d`.  Its line and column, which were those of a fragment, no longer
hold. -/
def shifted (t : Token) (d : Offset) : Token :=
  { t with span := t.span.offsetBy d, location := none }

/-- The text between backticks, or the name of the kind where there is no text. -/
instance : ToString Token := ⟨fun t => if t.text.isEmpty then t.kind.name else s!"`{t.text}`"⟩

end Token

end ScriptReader
