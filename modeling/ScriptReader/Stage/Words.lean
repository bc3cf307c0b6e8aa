import ScriptReader.Stage.Basic

/-!
# Stages that settle what a word is

Some words mean different things in different places.  Each stage here looks at one kind of word
and at its neighbours, and remembers nothing.

## Main Definitions

* `Stage.trivia` — drops blanks and comments
* `Stage.starOperator` — tells the star of a generator or a module from multiplication
* `Stage.cascade` — pipes before a dot refer to the value that they are applied to
* `Stage.memberName` — a word after a dot is a name, whatever it is elsewhere
* `Stage.embeddedSnippet` — tells snippets of one line from those of several
-/

namespace ScriptReader.Stage

/-- Drops blanks and comments. -/
def trivia : Stage where
  name := "trivia"
  State := Unit
  start := ()
  step _ t _ := .settled () (if t.kind.isTrivia then [] else [t])
  atEnd _ _ := []

/-- Words after which a star is not a multiplication. -/
def starWords : List TokenKind := [.importWord, .exportWord]

/-- Makes a `*` a star if an opening brace follows it or `import` or `export` precedes it. -/
def starOperator : Stage where
  name := "star-operator"
  State := Unit
  start := ()
  step _ t h :=
    if t.kind = .multiplicative ∧ t.text = "*" then
      .pending fun next =>
        if next = some .openBrace ∨ (h.lookBack 1).any starWords.contains then
          ((), [t.withKind .star])
        else ((), [t])
    else .settled () [t]
  atEnd _ _ := []

/-- Makes pipes that a dot follows a reference, with a mark for the value that it refers to. -/
def cascade : Stage where
  name := "cascade"
  State := Unit
  start := ()
  step _ t _ :=
    if t.kind = .pipes then
      .pending fun next =>
        if next = some .dot then
          ((), [t.withKind .cascadeRef, .mark .receiverMark t.span.stop])
        else ((), [t])
    else .settled () [t]
  atEnd _ _ := []

/-- Whether a text is a word of lower-case letters `a` to `z`. -/
def isLowerWord (text : String) : Bool := !text.isEmpty && text.toList.all Char.isLower

/-- Makes a word of lower-case letters that follows a dot an identifier. -/
def memberName : Stage where
  name := "member-name"
  State := Unit
  start := ()
  step _ t h :=
    .settled ()
      [if h.lookBack 1 = some .dot ∧ isLowerWord t.text then t.withKind .identifier else t]
  atEnd _ _ := []

/-- Tells snippets that hold a line feed from those that do not. -/
def embeddedSnippet : Stage where
  name := "embedded-snippet"
  State := Unit
  start := ()
  step _ t _ :=
    .settled ()
      [if t.kind = .embedded then
          t.withKind (if t.text.toList.contains '\n' then .embeddedBlock else .embeddedLine)
        else t]
  atEnd _ _ := []

end ScriptReader.Stage
