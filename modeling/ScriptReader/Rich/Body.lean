import ScriptReader.Text.Bytes

/-!
# Bodies of interpolations

A rich string may hold code between braces.  This module finds where such code ends.

## Main Definitions

* `Rich.body` — the code that follows an opening brace, up to the brace that closes it
* `Rich.bodyAt` — the same in a text, from a byte offset on

## Design Notes

Braces nest, and those inside single or double quotes do not count; inside quotes a backslash takes
away the meaning of the character after it.  A body that is never closed reaches to the end of the
text.  The scan reads the text once, with the number of groups open inside the body and the quote
it stands in as its only memory, so that what it answers is always a leading part of what it was
given.
-/

namespace ScriptReader.Rich

/-- The leading part of a text up to the brace that closes more groups than were opened.  `depth`
groups are open, `quote` is the quote that the text stands in, and `escaped` says that a backslash
precedes it there. -/
def bodyFrom : List Char → (depth : Nat) → (quote : Option Char) → (escaped : Bool) → List Char
  | [], _, _, _ => []
  | c :: cs, depth, some q, escaped =>
    if c = q ∧ ¬ escaped then c :: bodyFrom cs depth none false
    else c :: bodyFrom cs depth (some q) (c = '\\' ∧ ¬ escaped)
  | c :: cs, depth, none, _ =>
    if c = '\'' ∨ c = '"' then c :: bodyFrom cs depth (some c) false
    else if c = '{' then c :: bodyFrom cs (depth + 1) none false
    else if c = '}' then
      match depth with
      | 0 => []
      | depth + 1 => c :: bodyFrom cs depth none false
    else c :: bodyFrom cs depth none false

/-- The code that follows an opening brace: everything before the brace that closes it. -/
def body (cs : List Char) : List Char := bodyFrom cs 0 none false

/-- The body that begins `start` bytes into `text`; empty if no character begins there. -/
def bodyAt (text : String) (start : Nat) : String :=
  String.ofList (body ((Text.dropBytes? start text.toList).getD []))

/-! ### A body begins the text it is taken from -/

theorem bodyFrom_isPrefix (cs : List Char) (depth : Nat) (quote : Option Char) (escaped : Bool) :
    bodyFrom cs depth quote escaped <+: cs := by
  fun_induction bodyFrom cs depth quote escaped <;> simp_all

theorem body_isPrefix (cs : List Char) : body cs <+: cs := bodyFrom_isPrefix cs 0 none false

end ScriptReader.Rich
