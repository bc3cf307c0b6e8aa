import ScriptReader.Source.Location

/-!
# Diagnostics

What is said about a place in a source.

## Main Definitions

* `Severity` — how serious an annotation is
* `Annotation` — a location, a level and possibly a label
-/

namespace ScriptReader

/-- How serious an annotation is. -/
inductive Severity where
  /-- The fault lies with whatever made the tables. -/
  | internalError
  /-- The source is at fault. -/
  | error
  /-- A hint at what would be right. -/
  | help
  deriving DecidableEq, Repr, Ord

namespace Severity

instance : Inhabited Severity := ⟨.error⟩

/-- Levels are numbered from the gravest on. -/
def rank : Severity → Nat
  | .internalError => 1
  | .error => 2
  | .help => 3

instance : ToString Severity := ⟨fun
  | .internalError => "internal error"
  | .error => "error"
  | .help => "help"⟩

end Severity

/-- A location with something to say about it. -/
structure Annotation where
  /-- The location. -/
  location : Location
  /-- How serious it is. -/
  level : Severity
  /-- What is said. -/
  label : Option String := none
  deriving DecidableEq, Repr

namespace Annotation

/-- The annotation followed by a hint at the same location. -/
def withHint (a : Annotation) (hint : String) : List Annotation :=
  [a, ⟨a.location, .help, some hint⟩]

instance : ToString Annotation := ⟨fun a =>
  let place := s!"{a.level} at {a.location}"
  match a.label with
  | some label => s!"{place}: {label}"
  | none => place⟩

end Annotation

end ScriptReader
