import ScriptReader.Lexeme
import ScriptReader.Proofs.Rich.Bodies

/-!
# How the lexer goes through a rich string

The lexer looks for the end of a rich string in everything that is left of the source, and passes
over the code in it.  Of all that it keeps only the characters.  This module tells what else it
comes upon: the code, and what made it stop.

## Main Definitions

* `Lexeme.Scan` — what the lexer takes, passes over and stops at
* `Lexeme.scan` — the way of the lexer through the rest of a rich string

## Main Statements

* `Lexeme.taken_scan` — what is taken is the lexeme
* `Lexeme.richQuoted_eq_of_not_closed` — without a closing quote that is all of the source
* `Lexeme.bodies_taken_scan` — what was passed over in the source is the code in what was taken
-/

namespace ScriptReader

variable {cs ds : List Char} {d : Char}

namespace Rich

/-- What stands after the brace that closes a body makes no difference to it. -/
theorem bodyFrom_append_of_drop {depth : Nat} {quote : Option Char} {escaped : Bool}
    (h : cs.drop (bodyFrom cs depth quote escaped).length = d :: ds) (us : List Char) :
    bodyFrom (bodyFrom cs depth quote escaped ++ d :: us) depth quote escaped =
      bodyFrom cs depth quote escaped := by
  fun_induction bodyFrom cs depth quote escaped with
  | case1 => simp at h
  | case2 c cs depth q escaped hclose ih =>
    rw [List.cons_append, bodyFrom, if_pos hclose, ih (by simpa using h)]
  | case3 c cs depth q escaped hclose ih =>
    rw [List.cons_append, bodyFrom, if_neg hclose, ih (by simpa using h)]
  | case4 c cs depth escaped hquote ih => simp [bodyFrom, hquote, ih (by simpa using h)]
  | case5 cs depth escaped hquote ih => simp [bodyFrom, ih (by simpa using h)]
  | case6 cs escaped hquote hbrace =>
    obtain ⟨rfl, -⟩ := List.cons.inj h
    rfl
  | case7 cs escaped depth hquote hbrace ih => simp [bodyFrom, ih (by simpa using h)]
  | case8 c cs depth escaped hquote hopen hclose ih =>
    simp [bodyFrom, hquote, hopen, hclose, ih (by simpa using h)]

theorem body_append_of_drop (h : cs.drop (body cs).length = d :: ds) (us : List Char) :
    body (body cs ++ d :: us) = body cs :=
  bodyFrom_append_of_drop h us

/-- A body with the brace that closes it is found again whatever comes next.  Only if there is no
such brace must nothing come next. -/
theorem body_take_append {us : List Char} (h : cs.drop (body cs).length = [] → us = []) :
    body (cs.take ((body cs).length + 1) ++ us) = body cs ∧
      (cs.take ((body cs).length + 1) ++ us).take ((body cs).length + 1) =
        cs.take ((body cs).length + 1) ∧
      (cs.take ((body cs).length + 1) ++ us).drop ((body cs).length + 1) = us := by
  cases hdrop : cs.drop (body cs).length with
  | nil =>
    have hle : cs.length ≤ (body cs).length + 1 := by
      have hlength := congrArg List.length hdrop
      simp only [List.length_drop, List.length_nil] at hlength
      omega
    rw [h hdrop, List.append_nil, List.take_of_length_le hle]
    exact ⟨rfl, List.take_of_length_le hle, List.drop_of_length_le hle⟩
  | cons d ds =>
    obtain ⟨htake, -⟩ := take_drop_of_drop_eq_cons hdrop
    have hlength : (body cs ++ [d]).length = (body cs).length + 1 := List.length_append
    rw [htake]
    refine ⟨?_, List.take_left' hlength, List.drop_left' hlength⟩
    rw [List.append_assoc]
    exact body_append_of_drop hdrop us

end Rich

namespace Lexeme

open Rich

/-- What the lexer comes upon on its way through the rest of a rich string. -/
structure Scan where
  /-- The characters that it takes. -/
  taken : List Char
  /-- The code that it passes over, with the bytes at which it begins. -/
  passed : List (Nat × List Char)
  /-- Whether it stops at a quote, and not because the source ends. -/
  closed : Bool
  deriving DecidableEq, Repr

/-- The way of the lexer through the rest of a rich string, which begins `skip` bytes into it.
`escaped` says that a backslash precedes the text. -/
def scan (skip : Nat) (escaped : Bool) : List Char → Scan
  | [] => ⟨[], [], false⟩
  | c :: cs =>
    let start := skip + c.utf8Size
    if c = '{' ∧ ¬ escaped then
      let size := (body cs).length + 1
      let after := scan (start + Text.byteCount (cs.take size)) false (cs.drop size)
      ⟨c :: (cs.take size ++ after.taken), (start, body cs) :: after.passed, after.closed⟩
    else if c = '"' ∧ ¬ escaped then ⟨[c], [], true⟩
    else
      let after := scan start (c = '\\' ∧ ¬ escaped) cs
      { after with taken := c :: after.taken }
  termination_by cs => cs.length
  decreasing_by
    · simp only [List.length_drop, List.length_cons]; omega
    · simp

variable {skip : Nat} {escaped : Bool}

theorem scan_cons_of_brace (skip : Nat) {c : Char} (cs : List Char)
    (hbrace : c = '{' ∧ ¬ escaped) :
    let size := (body cs).length + 1
    let after := scan (skip + c.utf8Size + Text.byteCount (cs.take size)) false (cs.drop size)
    scan skip escaped (c :: cs) =
      ⟨c :: (cs.take size ++ after.taken), (skip + c.utf8Size, body cs) :: after.passed,
        after.closed⟩ := by
  rw [scan]
  exact if_pos hbrace

theorem scan_cons_of_plain (skip : Nat) {c : Char} (cs : List Char)
    (hbrace : ¬ (c = '{' ∧ ¬ escaped)) (hquote : ¬ (c = '"' ∧ ¬ escaped)) :
    let after := scan (skip + c.utf8Size) (c = '\\' ∧ ¬ escaped) cs
    scan skip escaped (c :: cs) = { after with taken := c :: after.taken } := by
  rw [scan, if_neg hbrace, if_neg hquote]

/-- What is taken is the lexeme. -/
theorem taken_scan (skip : Nat) (escaped : Bool) (cs : List Char) :
    (scan skip escaped cs).taken = richQuoted escaped cs := by
  fun_induction scan skip escaped cs with
  | case1 => rw [richQuoted]
  | case2 skip escaped c cs start hbrace size after ih =>
    rw [richQuoted, if_pos hbrace]
    exact congrArg (fun us => c :: (cs.take size ++ us)) ih
  | case3 skip escaped c cs hbrace hquote =>
    rw [richQuoted, if_neg hbrace, if_pos hquote]
  | case4 skip escaped c cs start hbrace hquote after ih =>
    rw [richQuoted, if_neg hbrace, if_neg hquote]
    exact congrArg (c :: ·) ih

/-- Unless it is closed, a rich string takes in the rest of the source. -/
theorem richQuoted_eq_of_not_closed (h : (scan skip escaped cs).closed = false) :
    richQuoted escaped cs = cs := by
  fun_induction scan skip escaped cs with
  | case1 => rw [richQuoted]
  | case2 skip escaped c cs start hbrace size after ih =>
    rw [richQuoted, if_pos hbrace]
    dsimp only
    rw [ih h, List.take_append_drop]
  | case3 => cases h
  | case4 skip escaped c cs start hbrace hquote after ih =>
    rw [richQuoted, if_neg hbrace, if_neg hquote, ih h]

/-- What is passed over in the source is the code in what is taken, although this need not be all of
the source. -/
theorem passed_scan (skip : Nat) (escaped : Bool) (cs : List Char) :
    (scan skip escaped cs).passed = bodiesFrom skip escaped (richQuoted escaped cs) := by
  fun_induction scan skip escaped cs with
  | case1 => rw [richQuoted, bodiesFrom]
  | case2 skip escaped c cs start hbrace size after ih =>
    rw [richQuoted, if_pos hbrace]
    dsimp only
    have hnothing : cs.drop (body cs).length = [] → richQuoted false (cs.drop size) = [] := by
      intro hdrop
      rw [← List.drop_drop, hdrop, List.drop_nil, richQuoted]
    obtain ⟨hbody, htake, hdrop⟩ := body_take_append hnothing
    rw [bodiesFrom_cons_of_brace skip _ hbrace, hbody, htake, hdrop]
    exact congrArg ((start, body cs) :: ·) ih
  | case3 skip escaped c cs hbrace hquote =>
    rw [richQuoted, if_neg hbrace, if_pos hquote, bodiesFrom_cons_of_not_brace skip [] hbrace,
      bodiesFrom]
  | case4 skip escaped c cs start hbrace hquote after ih =>
    rw [richQuoted, if_neg hbrace, if_neg hquote, bodiesFrom_cons_of_not_brace skip _ hbrace]
    exact ih

/-! ## Rich strings from their quote on -/

/-- A text that begins with a quote begins with a rich string. -/
theorem next_quote (cs : List Char) : next '"' cs = ⟨.richString, '"' :: richQuoted false cs⟩ := rfl

/-- The code in a rich string is what the lexer has passed over. -/
theorem bodies_taken_scan (cs : List Char) :
    bodies ('"' :: (scan 1 false cs).taken) = (scan 1 false cs).passed := by
  rw [passed_scan, taken_scan]
  exact bodiesFrom_cons_of_not_brace 0 _ (by decide)

end Lexeme

end ScriptReader
