/-!
# Lists of alternatives

How a list of alternatives is written in a message: `a`, then `a or b`, then `a, b, or c`.

## Main Definitions

* `Quoting` — how each item is quoted
* `Item` — what is listed, padded to a width
* `alternatives` — the list of already written items
* `Quoting.list` — the list of quoted names
-/

namespace ScriptReader

/-- How an item is quoted. -/
inductive Quoting where
  /-- As it is. -/
  | plain
  /-- Between backticks, inside which it is quoted further. -/
  | ticked (inner : Quoting)
  deriving DecidableEq, Repr

/-- The text `s` in quotes. -/
def Quoting.quote : Quoting → String → String
  | .plain, s => s
  | .ticked inner, s => s!"`{inner.quote s}`"

/-- What is listed. -/
inductive Item where
  /-- A text, which is padded on the right. -/
  | text (s : String)
  /-- A number, which is padded on the left. -/
  | number (n : Nat)
  deriving DecidableEq, Repr

/-- The item padded with blanks to at least `width` characters. -/
def Item.pad (width : Nat) : Item → String
  | .text s => String.ofList (s.toList.rightpad width ' ')
  | .number n => String.ofList ((toString n).toList.leftpad width ' ')

/-- The last items of a list of three or more. -/
def alternativesTail : List String → String
  | [] => ""
  | [last] => "or " ++ last
  | item :: rest => item ++ ", " ++ alternativesTail rest

/-- The list of the given items. -/
def alternatives : List String → String
  | [] => ""
  | [only] => only
  | [first, last] => first ++ " or " ++ last
  | items => alternativesTail items

/-- The list of the given names, each of them quoted. -/
def Quoting.list (q : Quoting) (names : List String) : String := alternatives (names.map q.quote)

end ScriptReader
