import Mathlib.Data.Nat.Digits.Defs
import ScriptReader.Text.Numeral

/-!
# What is read as a number

A numeral is a run of decimal digits with or without a plus sign before it, and just the numerals of
numbers below the bound are read.  Among them is the way in which numbers are written out.

## Main Definitions

* `Numeral.IsValueOf` — a number is the decimal value of some digits
* `Numeral.Denotes` — a numeral stands for a number

## Main Statements

* `Numeral.read?_eq_some_iff` — just the numerals below the bound are read
* `Numeral.denotes_toString` — a number that is written out stands for itself
-/

namespace ScriptReader.Numeral

variable {cs : List Char} {n bound : Nat}

/-! ## Digits -/

/-- The characters `cs` are digits, at least one, and `n` is their decimal value. -/
structure IsValueOf (n : Nat) (cs : List Char) : Prop where
  /-- There is a digit. -/
  ne_nil : cs ≠ []
  /-- There is nothing else. -/
  isDigit : ∀ c ∈ cs, c.isDigit = true
  /-- The last digit counts ones, the one before it tens, and so on. -/
  value : Nat.ofDigits 10 (cs.reverse.map fun c => c.toNat - '0'.toNat) = n

/-- Going from left to right, what has been read is worth ten times as much with each digit. -/
theorem ofDigitChars_eq (cs : List Char) (n : Nat) : Nat.ofDigitChars 10 cs n =
    10 ^ cs.length * n + Nat.ofDigits 10 (cs.reverse.map fun c => c.toNat - '0'.toNat) := by
  induction cs generalizing n with
  | nil => simp [Nat.ofDigitChars]
  | cons c cs ih =>
    rw [Nat.ofDigitChars_cons, ih, List.length_cons, List.reverse_cons, List.map_append,
      Nat.ofDigits_append, List.length_map, List.length_reverse, List.map_singleton,
      Nat.ofDigits_singleton, Nat.pow_succ]
    ring

/-- Digits are read from left to right. -/
theorem ofDigitsFrom?_of_isDigit (h : ∀ c ∈ cs, c.isDigit = true) (n : Nat) :
    ofDigitsFrom? n cs = some (Nat.ofDigitChars 10 cs n) := by
  induction cs generalizing n with
  | nil => rfl
  | cons c cs ih =>
    obtain ⟨hc, hcs⟩ := List.forall_mem_cons.1 h
    rw [ofDigitsFrom?, if_pos hc, ih hcs, Nat.ofDigitChars_cons]

theorem isDigit_of_ofDigitsFrom? {m : Nat} (h : ofDigitsFrom? m cs = some n) :
    ∀ c ∈ cs, c.isDigit = true := by
  induction cs generalizing m with
  | nil => simp
  | cons c cs ih =>
    rw [ofDigitsFrom?] at h
    split at h
    case isTrue hc => exact List.forall_mem_cons.2 ⟨hc, ih h⟩
    case isFalse => cases h

/-- Just digits are read as digits. -/
theorem ofDigits?_eq_some_iff : ofDigits? cs = some n ↔ IsValueOf n cs := by
  unfold ofDigits?
  split
  case h_1 => exact iff_of_false (by simp) fun h => h.ne_nil rfl
  case h_2 hne =>
    refine ⟨fun h => ?_, fun h => ?_⟩
    · have hdigits := isDigit_of_ofDigitsFrom? h
      rw [ofDigitsFrom?_of_isDigit hdigits, ofDigitChars_eq, Nat.mul_zero, Nat.zero_add] at h
      exact ⟨hne, hdigits, Option.some.inj h⟩
    · rw [ofDigitsFrom?_of_isDigit h.isDigit, ofDigitChars_eq, Nat.mul_zero, Nat.zero_add, h.value]

/-! ## Numerals -/

/-- The characters `cs` are digits of value `n`, with a plus sign before them if one likes. -/
inductive Denotes : List Char → Nat → Prop
  | plain {cs : List Char} {n : Nat} (digits : IsValueOf n cs) : Denotes cs n
  | signed {cs : List Char} {n : Nat} (digits : IsValueOf n cs) : Denotes ('+' :: cs) n

/-- A sign is no digit. -/
theorem not_isValueOf_plus : ¬ IsValueOf n ('+' :: cs) := fun h =>
  absurd (h.isDigit '+' List.mem_cons_self) (by decide)

/-- **Just the numerals below the bound are read.** -/
theorem read?_eq_some_iff : read? bound cs = some n ↔ Denotes cs n ∧ n < bound := by
  unfold read?
  rw [Option.filter_eq_some_iff, decide_eq_true_iff, ofDigits?_eq_some_iff]
  refine and_congr_left fun _ => ?_
  split
  case h_1 rest =>
    refine ⟨.signed, fun h => ?_⟩
    cases h with
    | plain digits => exact absurd digits not_isValueOf_plus
    | signed digits => exact digits
  case h_2 hplus =>
    refine ⟨.plain, fun h => ?_⟩
    cases h with
    | plain digits => exact digits
    | @signed rest => exact absurd rfl (hplus rest)

/-! ## Numbers that are written out -/

theorem toList_toString (n : Nat) : (toString n).toList = Nat.toDigits 10 n := by
  rw [Nat.toString_eq_ofList_toDigits, String.toList_ofList]

/-- All that a number is written with are digits. -/
theorem isDigit_of_mem_toString {c : Char} (h : c ∈ (toString n).toList) : c.isDigit = true := by
  rw [toList_toString] at h
  exact Nat.isDigit_of_mem_toDigits (by decide) (by decide) h

/-- A number is the value of the digits that it is written with. -/
theorem isValueOf_toString (n : Nat) : IsValueOf n (toString n).toList where
  ne_nil := by
    rw [toList_toString]
    exact Nat.toDigits_ne_nil
  isDigit _ := isDigit_of_mem_toString
  value := by
    have hvalue : Nat.ofDigitChars 10 (Nat.toDigits 10 n) 0 = n := Nat.ofDigitChars_ten_toDigits
    rwa [ofDigitChars_eq, Nat.mul_zero, Nat.zero_add, ← toList_toString] at hvalue

/-- A number that is written out stands for itself. -/
theorem denotes_toString (n : Nat) : Denotes (toString n).toList n :=
  .plain (isValueOf_toString n)

end ScriptReader.Numeral
