import ScriptReader.Stage.Basic
import ScriptReader.Stage.Withheld

/-!
# Stages that mark bracketed groups

A list in parentheses is a list of parameters if the body of a function follows; a list in braces or
brackets is a pattern if a value is assigned to it.  Both show only after the closing bracket, and
both are marked before the opening one.

## Main Definitions

* `GroupRule` — which groups are marked
* `Stage.markGroups` — marks the groups of a rule
* `Stage.functionLiteral` — the stage that marks lists of parameters
* `Stage.destructuring` — the stage that marks patterns

## Design Notes

The rule decides on a group twice: by the token before it, when it is opened, and by the token after
it, when it is closed.  The second question is asked only of groups that passed the first, since it
takes a token from the stream.  Groups nest, and each is decided on its own; all are let out when
the outermost one is closed.
-/

namespace ScriptReader

/-- Which bracketed groups are marked, and how. -/
structure GroupRule where
  /-- Kinds that open a group. -/
  opens : List TokenKind
  /-- Kinds that close a group. -/
  closes : List TokenKind
  /-- Whether a group may be marked, by the token before it. -/
  eligible : Option TokenKind → Bool
  /-- Kinds that make an eligible group marked by following it. -/
  follows : List TokenKind
  /-- The kind of the mark. -/
  mark : TokenKind

namespace GroupRule

/-- Lists of parameters: parentheses before an arrow or the body of a function. -/
def parameters : GroupRule where
  opens := [.openParen]
  closes := [.closeParen]
  eligible _ := true
  follows := [.fatArrow, .thinArrow, .star, .tilde, .tildeStar, .openBrace]
  mark := .functionMark

/-- Patterns: braces or brackets that begin a statement, a definition or an element of a list,
before an assignment. -/
def patterns : GroupRule where
  opens := [.openBrace, .openBracket]
  closes := [.closeBrace, .closeBracket]
  eligible before := before.all [.defWord, .comma, .newline, .indent].contains
  follows := [.equals, .define]
  mark := .patternMark

/-- What is let out once a group has been closed: everything, if it was the outermost. -/
def afterClose (rule : GroupRule) (w : Withheld Bool) : Withheld Bool × List Token :=
  if w.isOpen then (w, []) else (w.release rule.mark).swap

end GroupRule

namespace Stage

/-- Marks the groups of a rule. -/
def markGroups (name : String) (rule : GroupRule) : Stage where
  name := name
  State := Withheld Bool
  start := .empty
  step w t h :=
    if rule.opens.contains t.kind then
      .settled ((w.openGroup (rule.eligible (h.lookBack 1))).hold t) []
    else if !w.isOpen then .settled w [t]
    else if rule.closes.contains t.kind then
      match (w.hold t).closeGroup with
      | (some (place, true), w) =>
        .pending fun next =>
          rule.afterClose (if next.any rule.follows.contains then w.mark place else w)
      | (_, w) => .settled (rule.afterClose w).1 (rule.afterClose w).2
    else .settled (w.hold t) []
  atEnd w _ := (w.flush rule.mark).1

/-- Marks lists of parameters. -/
def functionLiteral : Stage := markGroups "fn-literal" .parameters

/-- Marks patterns. -/
def destructuring : Stage := markGroups "destructure" .patterns

end Stage

end ScriptReader
