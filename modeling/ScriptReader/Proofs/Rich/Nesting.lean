import ScriptReader.Proofs.Lexeme.Tiling
import ScriptReader.Proofs.Lexeme.Scan

/-!
# Rich strings inside rich strings

The code of an interpolation may hold rich strings, with interpolations of their own, and so on.
This module describes rich strings as they are written, to any depth, and says when they are read as
they were meant.

## Main Definitions

* `Rich.Contents`, `Rich.Code` — what stands between quotes, and between braces
* `Rich.Contents.ReadsBack` — a rich string is one lexeme, and each piece of code in it is found
* `Rich.Code.isHarmless` — literal text that is taken for code has no quotes and no braces
* `Rich.IsPassedOver` — the scan for the end of code goes through a text and ends as it began

## Main Statements

* `Rich.Code.isPassedOver_text` — harmless code is passed over
* `Rich.Contents.readsBack_of_isHarmless` — rich strings are read back if their code is harmless
* `Rich.Contents.not_readsBack_brace` — not all are

## Design Notes

The scan for the end of code knows quotes, but not that a rich string may hold code and therefore
further quotes.  In a string within code it takes the opening quote of a string further inside for
the closing one.  Since each string has two quotes it is right again after that string, so that just
every second level of strings is seen without quotes around it.  There literal text is taken for
code, and must have no quotes and no braces, not even with a backslash before them.
-/

namespace ScriptReader.Rich

/-! ## As it is written -/

/-- The characters that mean something in code: quotes and braces. -/
def delimiters : List Char := ['"', '\'', '{', '}']

mutual

/-- What stands between the quotes of a rich string. -/
inductive Contents where
  | nothing
  /-- A character that stands for itself. -/
  | plain (c : Char) (isPlain : c ≠ '"' ∧ c ≠ '{' ∧ c ≠ '\\') (rest : Contents)
  /-- A character with a backslash before it. -/
  | escape (c : Char) (rest : Contents)
  /-- Code between braces. -/
  | interpolation (code : Code) (rest : Contents)

/-- The code of an interpolation: words, rich strings and groups in braces, with blanks before,
after and between them. -/
inductive Code where
  /-- The last blank. -/
  | blank
  /-- One more blank. -/
  | space (rest : Code)
  /-- A word, for example of lower-case letters. -/
  | word (w : List Char) (isWord : w ≠ [] ∧ ∀ c ∈ w, c ∉ ' ' :: '\\' :: delimiters) (rest : Code)
  /-- A rich string. -/
  | string (contents : Contents) (rest : Code)
  /-- Code between braces. -/
  | group (code : Code) (rest : Code)

end

mutual

/-- The text between the quotes. -/
def Contents.text : Contents → List Char
  | .nothing => []
  | .plain c _ rest => c :: rest.text
  | .escape c rest => '\\' :: c :: rest.text
  | .interpolation code rest => '{' :: (code.text ++ '}' :: rest.text)

/-- The text of the code. -/
def Code.text : Code → List Char
  | .blank => [' ']
  | .space rest => ' ' :: rest.text
  | .word w _ rest => ' ' :: (w ++ rest.text)
  | .string contents rest => ' ' :: '"' :: (contents.text ++ '"' :: rest.text)
  | .group code rest => ' ' :: '{' :: (code.text ++ '}' :: rest.text)

end

namespace Contents

/-- The rich string with these contents. -/
def quoted (s : Contents) : List Char := '"' :: (s.text ++ ['"'])

/-- The interpolations in contents that begin `skip` bytes into a text, with the bytes at which
their code begins. -/
def interpolationsFrom (skip : Nat) : Contents → List (Nat × Code)
  | .nothing => []
  | .plain c _ rest => rest.interpolationsFrom (skip + c.utf8Size)
  | .escape c rest => rest.interpolationsFrom (skip + 1 + c.utf8Size)
  | .interpolation code rest =>
    (skip + 1, code) :: rest.interpolationsFrom (skip + 1 + Text.byteCount code.text + 1)

/-- The interpolations of a rich string, with the bytes at which their code begins. -/
def interpolations (s : Contents) : List (Nat × Code) := s.interpolationsFrom 1

/-- The rich string is one lexeme, and the code of each of its interpolations is found. -/
structure ReadsBack (s : Contents) : Prop where
  /-- It is read as one token, which is a rich string. -/
  lexeme : lex (String.ofList s.quoted) =
    [{ kind := .richString, text := String.ofList s.quoted
       span := .ofBytes 0 (Text.byteCount s.quoted) }]
  /-- The body found after the opening brace of an interpolation is its code. -/
  code : ∀ c ∈ s.interpolations, bodyAt (String.ofList s.quoted) c.1 = String.ofList c.2.text

end Contents

/-! ## Passing over code -/

mutual

/-- Literal text that is taken for code has no quotes and no braces.  `exposed` says that it is,
that is, that the scan does not stand between quotes there. -/
def Contents.isHarmless (exposed : Bool) : Contents → Bool
  | .nothing => true
  | .plain c _ rest | .escape c rest =>
    !(exposed && delimiters.contains c) && rest.isHarmless exposed
  | .interpolation code rest => code.isHarmless exposed && rest.isHarmless exposed

/-- The same in code, whose strings are seen without quotes if the code is seen with quotes. -/
def Code.isHarmless (exposed : Bool) : Code → Bool
  | .blank => true
  | .space rest | .word _ _ rest => rest.isHarmless exposed
  | .string contents rest => contents.isHarmless (!exposed) && rest.isHarmless exposed
  | .group code rest => code.isHarmless exposed && rest.isHarmless exposed

end

/-- The quote that the scan for the end of code stands in, unless it is exposed. -/
def quoteAround (exposed : Bool) : Option Char := if exposed then none else some '"'

@[simp] theorem quoteAround_true : quoteAround true = none := rfl

@[simp] theorem quoteAround_false : quoteAround false = some '"' := rfl

/-- The scan for the end of code goes through the text and ends as it began. -/
def IsPassedOver (exposed : Bool) (text : List Char) : Prop :=
  ∀ depth us, bodyFrom (text ++ us) depth (quoteAround exposed) false =
    text ++ bodyFrom us depth (quoteAround exposed) false

variable {exposed : Bool} {text text' : List Char}

theorem isPassedOver_nil : IsPassedOver exposed [] := fun _ _ => rfl

theorem IsPassedOver.append (h : IsPassedOver exposed text) (h' : IsPassedOver exposed text') :
    IsPassedOver exposed (text ++ text') := by
  intro depth us
  rw [List.append_assoc, h, h', List.append_assoc]

/-- A character that means nothing to the scan. -/
theorem isPassedOver_of_ne {c : Char} (hslash : c ≠ '\\') (hquote : c ≠ '"')
    (hc : exposed = true → c ∉ delimiters) : IsPassedOver exposed [c] := by
  intro depth us
  cases exposed with
  | false => simp [bodyFrom, hslash, hquote]
  | true =>
    obtain ⟨-, hsingle, hopen, hclose⟩ : c ≠ '"' ∧ c ≠ '\'' ∧ c ≠ '{' ∧ c ≠ '}' := by
      simpa [delimiters] using hc rfl
    simp [bodyFrom, hsingle, hquote, hopen, hclose]

/-- A character with a backslash before it, which counts for nothing outside quotes. -/
theorem isPassedOver_escape {c : Char} (hc : exposed = true → c ∉ delimiters) :
    IsPassedOver exposed ['\\', c] := by
  intro depth us
  cases exposed with
  | false => simp [bodyFrom]
  | true =>
    obtain ⟨hquote, hsingle, hopen, hclose⟩ : c ≠ '"' ∧ c ≠ '\'' ∧ c ≠ '{' ∧ c ≠ '}' := by
      simpa [delimiters] using hc rfl
    simp [bodyFrom, hsingle, hquote, hopen, hclose]

/-- A quote leads from outside to inside and the next one back again, or the other way round. -/
theorem IsPassedOver.quotes (h : IsPassedOver (!exposed) text) :
    IsPassedOver exposed ('"' :: (text ++ ['"'])) := by
  have hquote (e : Bool) (depth : Nat) (us : List Char) :
      bodyFrom ('"' :: us) depth (quoteAround e) false =
        '"' :: bodyFrom us depth (quoteAround (!e)) false := by
    cases e <;> simp [bodyFrom]
  intro depth us
  calc bodyFrom ('"' :: (text ++ ['"']) ++ us) depth (quoteAround exposed) false
      = bodyFrom ('"' :: (text ++ '"' :: us)) depth (quoteAround exposed) false := by simp
    _ = '"' :: (text ++ '"' :: bodyFrom us depth (quoteAround exposed) false) := by
        rw [hquote, h, hquote, Bool.not_not]
    _ = '"' :: (text ++ ['"']) ++ bodyFrom us depth (quoteAround exposed) false := by simp

/-- Braces are counted outside quotes, and mean nothing inside. -/
theorem IsPassedOver.braces (h : IsPassedOver exposed text) :
    IsPassedOver exposed ('{' :: (text ++ ['}'])) := by
  intro depth us
  cases exposed with
  | false =>
    have hinside := h depth ('}' :: us)
    rw [quoteAround_false] at hinside ⊢
    simp [bodyFrom, hinside]
  | true =>
    have hinside := h (depth + 1) ('}' :: us)
    rw [quoteAround_true] at hinside ⊢
    simp [bodyFrom, hinside]

/-- A word means nothing to the scan. -/
theorem isPassedOver_word {w : List Char} (hw : ∀ c ∈ w, c ∉ ' ' :: '\\' :: delimiters) :
    IsPassedOver exposed w := by
  induction w with
  | nil => exact isPassedOver_nil
  | cons c w ih =>
    obtain ⟨hc, hw⟩ := List.forall_mem_cons.1 hw
    have hfirst : IsPassedOver exposed [c] :=
      isPassedOver_of_ne (by rintro rfl; simp at hc) (by rintro rfl; simp [delimiters] at hc)
        fun _ hmem => hc (List.mem_cons_of_mem _ (List.mem_cons_of_mem _ hmem))
    exact hfirst.append (ih hw)

/-- Blanks mean nothing to it. -/
theorem isPassedOver_blank : IsPassedOver exposed [' '] :=
  isPassedOver_of_ne (by decide) (by decide) fun _ => by decide

theorem not_mem_delimiters {c : Char} (h : (!(exposed && delimiters.contains c)) = true)
    (hexposed : exposed = true) : c ∉ delimiters := by
  simpa [hexposed] using h

mutual

/-- Harmless contents are passed over. -/
theorem Contents.isPassedOver_text {exposed : Bool} :
    (s : Contents) → s.isHarmless exposed = true → IsPassedOver exposed s.text
  | .nothing, _ => isPassedOver_nil
  | .plain c isPlain rest, h => by
    obtain ⟨hc, hrest⟩ := Bool.and_eq_true_iff.1 h
    have hfirst : IsPassedOver exposed [c] :=
      isPassedOver_of_ne isPlain.2.2 isPlain.1 (not_mem_delimiters hc)
    exact hfirst.append (rest.isPassedOver_text hrest)
  | .escape c rest, h => by
    obtain ⟨hc, hrest⟩ := Bool.and_eq_true_iff.1 h
    have hfirst : IsPassedOver exposed ['\\', c] := isPassedOver_escape (not_mem_delimiters hc)
    exact hfirst.append (rest.isPassedOver_text hrest)
  | .interpolation code rest, h => by
    obtain ⟨hcode, hrest⟩ := Bool.and_eq_true_iff.1 h
    have hfirst := (code.isPassedOver_text hcode).braces
    simpa [Contents.text] using hfirst.append (rest.isPassedOver_text hrest)

/-- Harmless code is passed over. -/
theorem Code.isPassedOver_text {exposed : Bool} :
    (code : Code) → code.isHarmless exposed = true → IsPassedOver exposed code.text
  | .blank, _ => isPassedOver_blank
  | .space rest, h => isPassedOver_blank.append (rest.isPassedOver_text h)
  | .word w isWord rest, h =>
    isPassedOver_blank.append ((isPassedOver_word isWord.2).append (rest.isPassedOver_text h))
  | .string contents rest, h => by
    obtain ⟨hcontents, hrest⟩ := Bool.and_eq_true_iff.1 h
    have hfirst := (contents.isPassedOver_text hcontents).quotes
    simpa [Code.text] using
      isPassedOver_blank.append (hfirst.append (rest.isPassedOver_text hrest))
  | .group code rest, h => by
    obtain ⟨hcode, hrest⟩ := Bool.and_eq_true_iff.1 h
    have hfirst := (code.isPassedOver_text hcode).braces
    simpa [Code.text] using
      isPassedOver_blank.append (hfirst.append (rest.isPassedOver_text hrest))

end

/-- Harmless code is what is found before the brace that closes it. -/
theorem Code.body_text {code : Code} (h : code.isHarmless true = true) (us : List Char) :
    body (code.text ++ '}' :: us) = code.text := by
  have hpassed := code.isPassedOver_text h 0 ('}' :: us)
  rw [quoteAround_true] at hpassed
  rw [body, hpassed]
  simp [bodyFrom]

/-! ## Reading a rich string back -/

/-- The lexer goes through a rich string up to its closing quote, and passes over the code of its
interpolations. -/
theorem Contents.scan_text (us : List Char) :
    (s : Contents) → (skip : Nat) →
      (∀ c ∈ s.interpolationsFrom skip, c.2.isHarmless true = true) →
      Lexeme.scan skip false (s.text ++ '"' :: us) =
        ⟨s.text ++ ['"'], (s.interpolationsFrom skip).map fun c => (c.1, c.2.text), true⟩
  | .nothing, skip, _ => by
    rw [Contents.text, List.nil_append, Lexeme.scan]
    rfl
  | .plain c isPlain rest, skip, h => by
    have hrest := Contents.scan_text us rest _ h
    rw [Contents.text, List.cons_append,
      Lexeme.scan_cons_of_plain skip _ (by simp [isPlain.2.1]) (by simp [isPlain.1])]
    simp [isPlain.2.2, hrest, Contents.interpolationsFrom]
  | .escape c rest, skip, h => by
    have hrest := Contents.scan_text us rest _ h
    have hslash : ('\\').utf8Size = 1 := rfl
    rw [Contents.text, List.cons_append, List.cons_append,
      Lexeme.scan_cons_of_plain skip _ (by simp) (by simp),
      Lexeme.scan_cons_of_plain _ _ (by simp) (by simp)]
    simp [hslash, hrest, Contents.interpolationsFrom]
  | .interpolation code rest, skip, h => by
    obtain ⟨hcode, hrest⟩ := List.forall_mem_cons.1 h
    have hafter := Contents.scan_text us rest _ hrest
    have hbody := Code.body_text hcode (rest.text ++ '"' :: us)
    have hlength : (code.text ++ ['}']).length = code.text.length + 1 := List.length_append
    have hsplit : code.text ++ '}' :: (rest.text ++ '"' :: us) =
      (code.text ++ ['}']) ++ (rest.text ++ '"' :: us) := by simp
    have hopen : ('{').utf8Size = 1 := rfl
    have hclose : Text.byteCount ['}'] = 1 := rfl
    have htext : (Contents.interpolation code rest).text ++ '"' :: us =
        '{' :: (code.text ++ '}' :: (rest.text ++ '"' :: us)) := by
      simp [Contents.text]
    rw [htext, Lexeme.scan_cons_of_brace skip _ (by simp), hbody, hsplit,
      List.take_left' hlength, List.drop_left' hlength, hopen, Text.byteCount_append, hclose,
      ← Nat.add_assoc, hafter]
    simp [Contents.text, Contents.interpolationsFrom]

/-- **Rich strings are read back at any depth**, if what is taken for code in the code of their
interpolations is harmless. -/
theorem Contents.readsBack_of_isHarmless {s : Contents}
    (h : ∀ c ∈ s.interpolations, c.2.isHarmless true = true) : s.ReadsBack := by
  have hscan := Contents.scan_text [] s 1 h
  have htaken : (Lexeme.scan 1 false (s.text ++ ['"'])).taken = s.text ++ ['"'] := by rw [hscan]
  have hrich : Lexeme.richQuoted false (s.text ++ ['"']) = s.text ++ ['"'] := by
    rw [← Lexeme.taken_scan 1, htaken]
  refine ⟨?_, ?_⟩
  · rw [lex, String.toList_ofList, quoted, lexFrom, Lexeme.next_quote]
    dsimp only
    rw [hrich, List.drop_length, lexFrom, Nat.zero_add]
  · intro c hc
    refine bodyAt_of_mem_bodies ?_
    have hbodies := Lexeme.bodies_taken_scan (s.text ++ ['"'])
    rw [htaken, hscan] at hbodies
    rw [String.toList_ofList, quoted, hbodies]
    exact List.mem_map_of_mem hc

/-! ### The innermost of three strings -/

/-- A rich string in the code of a second one, which is in the code of a third one.  The innermost
holds just the character `c`. -/
def Contents.threefold (c : Char) (isPlain : c ≠ '"' ∧ c ≠ '{' ∧ c ≠ '\\') : Contents :=
  let innermost : Contents := .plain c isPlain .nothing
  let second : Contents := .interpolation (.string innermost .blank) .nothing
  .interpolation (.string second .blank) .nothing

theorem Contents.readsBack_threefold :
    (∀ c ∈ (threefold 'a' (by decide)).interpolations, c.2.isHarmless true = true) ∧
      (threefold 'a' (by decide)).ReadsBack := by
  have h : ∀ c ∈ (threefold 'a' (by decide)).interpolations, c.2.isHarmless true = true := by
    decide
  exact ⟨h, readsBack_of_isHarmless h⟩

/-- A closing brace there is taken for the end of the code in the outermost string. -/
theorem Contents.not_readsBack_brace : ¬ (threefold '}' (by decide)).ReadsBack := by
  intro h
  have hcode := h.code (2, _) List.mem_cons_self
  have hfound : bodyAt (String.ofList (threefold '}' (by decide)).quoted) 2 = " \"\x7b \"" := by
    decide +kernel
  rw [hfound] at hcode
  revert hcode
  decide

end ScriptReader.Rich
