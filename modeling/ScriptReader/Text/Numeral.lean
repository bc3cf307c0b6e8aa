/-!
# Unsigned numerals

The numbers inside encoded tables: decimal digits, with a plus sign in front if one likes.

## Main Definitions

* `Numeral.ofDigits?` — the value of a run of digits
* `Numeral.read?` — the value of a numeral that lies below a bound
-/

namespace ScriptReader.Numeral

/-- The value of the digits `cs` after digits of value `n`, if all of them are digits. -/
def ofDigitsFrom? (n : Nat) : List Char → Option Nat
  | [] => some n
  | c :: cs => if c.isDigit then ofDigitsFrom? (10 * n + (c.toNat - '0'.toNat)) cs else none

/-- The value of a run of digits, of which there must be at least one. -/
def ofDigits? : List Char → Option Nat
  | [] => none
  | cs => ofDigitsFrom? 0 cs

/-- The value of a numeral, if it is less than `bound`. -/
def read? (bound : Nat) (cs : List Char) : Option Nat :=
  let digits := match cs with
    | '+' :: rest => rest
    | _ => cs
  (ofDigits? digits).filter (· < bound)

end ScriptReader.Numeral
