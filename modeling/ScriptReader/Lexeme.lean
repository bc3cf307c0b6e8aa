import ScriptReader.Rich.Body
import ScriptReader.Token.Basic

/-!
# Lexemes

A source is a sequence of words that blanks and line breaks keep apart.  Strings, snippets and
comments are the only lexemes that may contain blanks.

## Main Definitions

* `Lexeme` — the kind of a lexeme, and its characters
* `Lexeme.ofWord` — the kind of a word
* `Lexeme.quoted`, `Lexeme.richQuoted` — what follows the opening quote of a string or snippet
* `Lexeme.next` — the first lexeme of a text
* `lex` — the tokens of a source

## Main Statements

* `Lexeme.exists_text_next` — a lexeme begins with the first character of its text

## Design Notes

The first character of a text decides what the first lexeme is.  Only in a string or snippet is that
character taken for granted; elsewhere the lexeme is looked for from the first character on, and
reaches as far as there are characters of some sort.  The first character is of that sort in each
case, so that no lexeme is empty.  Lexing ends because the rest of a text is shorter.

Words that name a token kind have that kind, unless it is one that words do not spell; every word
that is nothing else is an identifier.
-/

namespace ScriptReader

/-- A lexeme. -/
structure Lexeme where
  /-- What it is. -/
  kind : TokenKind
  /-- Its characters. -/
  text : List Char
  deriving DecidableEq, Repr

namespace Lexeme

/-- Characters that stay on a line and only keep words apart. -/
def isBlank (c : Char) : Bool := c = ' ' ∨ c = '\t'

/-- Characters that end a line. -/
def isBreak (c : Char) : Bool := c = '\r' ∨ c = '\n'

/-- Characters that end a word. -/
def isSpace (c : Char) : Bool := isBlank c || isBreak c

/-- Operators that are written with more than one spelling, by kind. -/
def ofOperator? : String → Option TokenKind
  | "@" => some .self
  | "*" | "/" | "//" | "%" => some .multiplicative
  | "+" | "-" => some .additive
  | "^" => some .power
  | "==" | "!=" | "<=" | ">=" | "<" | ">" => some .comparison
  | "+=" | "-=" | "*=" | "/=" => some .reassignment
  | _ => none

/-- The kind of a word. -/
def ofWord (word : List Char) : TokenKind :=
  (ofOperator? (String.ofList word)).getD <|
    if word.all (· = '|') then .pipes
    else if word.head?.any Char.isDigit then .number
    else ((TokenKind.ofName? (String.ofList word)).filter TokenKind.isSpelled).getD .identifier

/-- The characters up to and including the first `quote` that no backslash precedes, or all of
them.  `escaped` says that a backslash precedes the text. -/
def quoted (quote : Char) (escaped : Bool) : List Char → List Char
  | [] => []
  | c :: cs =>
    if c = quote ∧ ¬ escaped then [c] else c :: quoted quote (c = '\\' ∧ ¬ escaped) cs

/-- The characters up to and including the first double quote that no backslash precedes and that
is not part of an interpolation, or all of them. -/
def richQuoted (escaped : Bool) : List Char → List Char
  | [] => []
  | c :: cs =>
    if c = '{' ∧ ¬ escaped then
      let size := (Rich.body cs).length + 1
      c :: (cs.take size ++ richQuoted false (cs.drop size))
    else if c = '"' ∧ ¬ escaped then [c]
    else c :: richQuoted (c = '\\' ∧ ¬ escaped) cs
  termination_by cs => cs.length
  decreasing_by
    · simp only [List.length_drop, List.length_cons]; omega
    · simp

/-- The lexeme that `c :: cs` begins with. -/
def next (c : Char) (cs : List Char) : Lexeme :=
  if isBlank c then ⟨.blank, (c :: cs).takeWhile isBlank⟩
  else if isBreak c then ⟨.newline, (c :: cs).takeWhile isSpace⟩
  else if c = '#' then ⟨.comment, (c :: cs).takeWhile (· ≠ '\n')⟩
  else if c = '"' then ⟨.richString, c :: richQuoted false cs⟩
  else if c = '\'' then ⟨.simpleString, c :: quoted '\'' false cs⟩
  else if c = '`' then ⟨.embedded, c :: quoted '`' false cs⟩
  else
    let word := (c :: cs).takeWhile (! isSpace ·)
    ⟨ofWord word, word⟩

/-- What is looked for from the first character on begins with it, if that is of the sort. -/
theorem exists_takeWhile_cons {c : Char} (sort : Char → Bool) (hc : sort c) (cs : List Char) :
    ∃ tail, (c :: cs).takeWhile sort = c :: tail :=
  ⟨_, List.takeWhile_cons_of_pos hc⟩

/-- A lexeme begins with the first character of the text that it is found in, and so is not
empty. -/
theorem exists_text_next (c : Char) (cs : List Char) : ∃ tail, (next c cs).text = c :: tail := by
  fun_cases next c cs with
  | case1 hblank => exact exists_takeWhile_cons _ hblank cs
  | case2 hblank hbreak => exact exists_takeWhile_cons isSpace (by simp [isSpace, hbreak]) cs
  | case3 hblank hbreak hcomment =>
    exact exists_takeWhile_cons (· ≠ '\n') (by rw [hcomment]; decide) cs
  | case4 => exact ⟨_, rfl⟩
  | case5 => exact ⟨_, rfl⟩
  | case6 => exact ⟨_, rfl⟩
  | case7 hblank hbreak =>
    exact exists_takeWhile_cons (! isSpace ·) (by simp [isSpace, hblank, hbreak]) cs

theorem length_text_next_pos (c : Char) (cs : List Char) : 0 < (next c cs).text.length := by
  obtain ⟨tail, htext⟩ := exists_text_next c cs
  rw [htext]
  exact Nat.succ_pos _

end Lexeme

/-- The tokens of a text whose first character is at byte `start` of a source. -/
def lexFrom (start : Nat) : List Char → List Token
  | [] => []
  | c :: cs =>
    let first := Lexeme.next c cs
    let stop := start + Text.byteCount first.text
    { kind := first.kind
      text := String.ofList first.text
      span := .ofBytes start stop } ::
      lexFrom stop ((c :: cs).drop first.text.length)
  termination_by cs => cs.length
  decreasing_by
    have hpos := Lexeme.length_text_next_pos c cs
    simp only [List.length_drop, List.length_cons]
    omega

/-- The tokens of a source, blanks and comments included. -/
def lex (source : String) : List Token := lexFrom 0 source.toList

end ScriptReader
