import ScriptReader.Stage.Basic

/-!
# Stages that drop newlines

A newline separates statements.  Where it cannot do that it is dropped, so that grammars need not
provide for it.

## Main Definitions

* `Stage.newlineElision` — drops newlines by the brackets around them and the words beside them
* `Stage.newlineCleanup` — drops newlines that the marks of blocks have made needless

## Design Notes

Both decide on the tokens beside a newline as they come in, including newlines that are dropped
themselves.  A newline at either edge of the stream separates nothing.
-/

namespace ScriptReader

/-- The bracket that a closing bracket closes. -/
def TokenKind.opener? : TokenKind → Option TokenKind
  | .closeBrace => some .openBrace
  | .closeBracket => some .openBracket
  | .closeParen => some .openParen
  | _ => none

/-- Whether a kind is an opening bracket. -/
def TokenKind.isOpener : TokenKind → Bool
  | .openBrace | .openBracket | .openParen => true
  | _ => false

namespace Stage

/-- The brackets that are open, the innermost first, after a token of kind `k`.  A closing bracket
that does not fit the innermost open one closes nothing. -/
def trackBracket (opened : List TokenKind) (k : TokenKind) : List TokenKind :=
  if k.isOpener then k :: opened
  else if k.opener?.isSome ∧ opened.head? = k.opener? then opened.tail
  else opened

/-- Whether a newline separates nothing, by the kinds of its neighbours. -/
def isNeedless (noBreakAfter noBreakBefore : List TokenKind) (before after : Option TokenKind) :
    Bool :=
  before.all noBreakAfter.contains || after.all noBreakBefore.contains

/-- Drops newlines at the edges of the stream, after what cannot end a statement, before what cannot
begin one, and directly inside parentheses. -/
def newlineElision : Stage where
  name := "newline-elision"
  State := List TokenKind
  start := []
  step opened t h :=
    let opened := trackBracket opened t.kind
    if t.kind = .newline then
      .pending fun next =>
        if isNeedless [.openBracket, .openBrace, .comma]
              [.newline, .closeBracket, .closeBrace, .comma, .pipes] (h.lookBack 1) next
            ∨ opened.head? = some .openParen then
          (opened, [])
        else (opened, [t])
    else .settled opened [t]
  atEnd _ _ := []

/-- Drops newlines at the edges of the stream, at the start of a block or of an assigned value, and
before what ends a block or goes on with its statement. -/
def newlineCleanup : Stage where
  name := "newline-cleanup"
  State := Unit
  start := ()
  step _ t h :=
    if t.kind = .newline then
      .pending fun next =>
        if isNeedless [.indent, .equals] [.elseWord, .catchWord, .finallyWord, .dedent]
            (h.lookBack 1) next then
          ((), [])
        else ((), [t])
    else .settled () [t]
  atEnd _ _ := []

end Stage

end ScriptReader
