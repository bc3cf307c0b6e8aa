import ScriptReader.Token.Basic

/-!
# Withheld tokens

What a bracketed group is may show only after its closing bracket, while the mark that says so
stands before the opening one.  Until then the tokens of the group are withheld.

## Main Definitions

* `Withheld` — tokens withheld, with the groups still open among them
* `Withheld.mark` — remembers that a mark is due before a withheld token
* `Withheld.release` — lets the tokens out, with the marks that are due

## Design Notes

A group carries a datum that is fixed when it is opened and handed back when it is closed.  Nothing
forces tokens to be withheld only while a group is open; that is for the user to decide.
-/

namespace ScriptReader

/-- Tokens withheld, with the groups still open among them. -/
structure Withheld (δ : Type) where
  /-- The tokens, in order. -/
  tokens : Array Token := #[]
  /-- For each open group, the innermost first, how many tokens were withheld when it was opened and
  the datum that it was given. -/
  groups : List (Nat × δ) := []
  /-- The places of the tokens before which a mark is due. -/
  marks : List Nat := []

namespace Withheld

variable {δ : Type}

/-- Nothing is withheld and no group is open. -/
def empty : Withheld δ := {}

/-- Whether any group is open. -/
def isOpen (w : Withheld δ) : Bool := !w.groups.isEmpty

/-- Opens a group at the next token to be withheld. -/
def openGroup (w : Withheld δ) (datum : δ) : Withheld δ :=
  { w with groups := (w.tokens.size, datum) :: w.groups }

/-- Closes the innermost group, if any, and gives its place and datum. -/
def closeGroup (w : Withheld δ) : Option (Nat × δ) × Withheld δ :=
  (w.groups.head?, { w with groups := w.groups.tail })

/-- Withholds a token. -/
def hold (w : Withheld δ) (t : Token) : Withheld δ := { w with tokens := w.tokens.push t }

/-- Remembers that a mark is due before the token at `place`. -/
def mark (w : Withheld δ) (place : Nat) : Withheld δ := { w with marks := place :: w.marks }

/-- The tokens from `place` on, with a mark of kind `k` before each of those for which one is
due. -/
def withMarks (k : TokenKind) (marks : List Nat) (place : Nat) : List Token → List Token
  | [] => []
  | t :: ts =>
    let rest := t :: withMarks k marks (place + 1) ts
    if marks.contains place then .mark k t.span.start :: rest else rest

/-- Lets all tokens out, with a mark of kind `k` wherever one is due.  Groups stay open. -/
def release (w : Withheld δ) (k : TokenKind) : List Token × Withheld δ :=
  (withMarks k w.marks 0 w.tokens.toList, { groups := w.groups })

/-- Lets all tokens out and gives up the open groups. -/
def flush (w : Withheld δ) (k : TokenKind) : List Token × Withheld δ :=
  release { w with groups := [] } k

end Withheld

end ScriptReader
