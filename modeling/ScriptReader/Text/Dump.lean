/-!
# Dumps

The structure of a value spelled out as text, for whoever debugs a parse.

## Main Definitions

* `Dump` — a structured value
* `Dump.render` — its text, in one line
-/

namespace ScriptReader

/-- A structured value. -/
inductive Dump where
  /-- A word or number, written as it is. -/
  | atom (text : String)
  /-- A text, written in quotes. -/
  | text (text : String)
  /-- A list. -/
  | list (items : List Dump)
  /-- A name applied to arguments. -/
  | call (name : String) (arguments : List Dump)
  /-- A name with labelled fields. -/
  | record (name : String) (fields : List (String × Dump))

namespace Dump

/-- A character as it is written between quotes. -/
def escape : Char → List Char
  | '"' => ['\\', '"']
  | '\\' => ['\\', '\\']
  | '\n' => ['\\', 'n']
  | '\r' => ['\\', 'r']
  | '\t' => ['\\', 't']
  | '\x00' => ['\\', '0']
  | c => [c]

/-- A text in quotes. -/
def quoted (s : String) : String := "\"" ++ String.ofList (s.toList.flatMap escape) ++ "\""

mutual

/-- The text of a value. -/
def render : Dump → String
  | .atom s => s
  | .text s => quoted s
  | .list items => "[" ++ renderItems items ++ "]"
  | .call name arguments => name ++ "(" ++ renderItems arguments ++ ")"
  | .record name fields => name ++ " \x7b " ++ renderFields fields ++ " \x7d"

/-- Values with commas between them. -/
def renderItems : List Dump → String
  | [] => ""
  | [d] => d.render
  | d :: ds => d.render ++ ", " ++ renderItems ds

/-- Labelled values with commas between them. -/
def renderFields : List (String × Dump) → String
  | [] => ""
  | [(label, d)] => label ++ ": " ++ d.render
  | (label, d) :: fields => label ++ ": " ++ d.render ++ ", " ++ renderFields fields

end

/-- A number. -/
def number (n : Nat) : Dump := .atom (toString n)

/-- A value that may be missing. -/
def option : Option Dump → Dump
  | none => .atom "None"
  | some d => .call "Some" [d]

end Dump

end ScriptReader
