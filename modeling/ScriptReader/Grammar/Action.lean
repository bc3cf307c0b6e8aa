import ScriptReader.Grammar.LoadError
import ScriptReader.Text.Numeral

/-!
# Parser actions

What a parse table says to do in a state when a terminal is next.

## Main Definitions

* `Action` — shift, reduce or accept
* `Action.parse` — reads an encoded action
* the instance of `ToString` — writes one

## Design Notes

An encoded action is a letter and a number.  Production zero is that of the start symbol, so
reducing by it is accepting; written out, accepting has a spelling of its own.
-/

namespace ScriptReader

/-- The number of a state of the parser. -/
abbrev StateId := UInt32

/-- The number of a production. -/
abbrev ProductionId := UInt32

/-- What to do in a state when a terminal is next. -/
inductive Action where
  /-- Move past the terminal and go to a state. -/
  | shift (target : StateId)
  /-- Replace the symbols of a production by its left-hand side. -/
  | reduce (production : ProductionId)
  /-- The input is a sentence. -/
  | accept
  deriving DecidableEq, Repr

namespace Action

/-- Reads an encoded action. -/
def parse (text : String) : Except LoadError Action :=
  if text = "a" ∨ text = "acc" then .ok .accept
  else
    match text.toList with
    | [] => .error (.badAction text)
    | op :: digits =>
      match Numeral.read? UInt32.size digits with
      | none => .error (.badAction text)
      | some n =>
        if op = 's' then .ok (.shift (UInt32.ofNat n))
        else if op = 'r' then .ok (if n = 0 then .accept else .reduce (UInt32.ofNat n))
        else .error (.badAction text)

instance : ToString Action := ⟨fun
  | .shift target => s!"s{target}"
  | .reduce production => s!"r{production}"
  | .accept => "acc"⟩

end Action

end ScriptReader
