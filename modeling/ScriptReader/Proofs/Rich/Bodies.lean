import ScriptReader.Proofs.Text.Pieces
import ScriptReader.Rich.Segments

/-!
# Where the code of a rich string is

The code of interpolations can be found without taking a rich string apart: it follows each opening
brace that no backslash precedes and that is not part of code itself.  This module finds it in that
way, and shows that taking the string apart finds the same and loses nothing.

## Main Definitions

* `Rich.bodies` — the code in a text, with the bytes at which it begins
* `Rich.codesFrom` — the code among pieces, with the bytes at which it begins

## Main Statements

* `Rich.flatMap_text_segments` — the pieces make up the text
* `Rich.codesFrom_segments` — the code among the pieces is the code in the text
* `Rich.exists_of_mem_bodies` — code is what an opening brace encloses
* `Rich.bodyAt_of_mem_bodies` — code is the body found at its place
-/

namespace ScriptReader.Rich

/-- The code of interpolations in a text that begins `skip` bytes into a longer one, each with the
byte of the longer text at which it begins.  `escaped` says that a backslash precedes the text. -/
def bodiesFrom (skip : Nat) (escaped : Bool) : List Char → List (Nat × List Char)
  | [] => []
  | c :: cs =>
    let start := skip + c.utf8Size
    if c = '{' ∧ ¬ escaped then
      let size := (body cs).length + 1
      (start, body cs) :: bodiesFrom (start + Text.byteCount (cs.take size)) false (cs.drop size)
    else bodiesFrom start (c = '\\' ∧ ¬ escaped) cs
  termination_by cs => cs.length
  decreasing_by
    · simp only [List.length_drop, List.length_cons]; omega
    · simp

/-- The code of interpolations in a text, each with the byte at which it begins. -/
def bodies (text : List Char) : List (Nat × List Char) := bodiesFrom 0 false text

/-- The code among pieces the first of which begins `skip` bytes into a text, with the bytes at
which it begins. -/
def codesFrom (skip : Nat) : List Segment → List (Nat × List Char)
  | [] => []
  | .chunk _ text :: rest => codesFrom (skip + Text.byteCount text) rest
  | .code text :: rest => (skip, text) :: codesFrom (skip + Text.byteCount text) rest

theorem bodiesFrom_cons_of_brace (skip : Nat) {escaped : Bool} {c : Char} (cs : List Char)
    (hbrace : c = '{' ∧ ¬ escaped) :
    bodiesFrom skip escaped (c :: cs) =
      (skip + c.utf8Size, body cs) ::
        bodiesFrom (skip + c.utf8Size + Text.byteCount (cs.take ((body cs).length + 1))) false
          (cs.drop ((body cs).length + 1)) := by
  rw [bodiesFrom]
  exact if_pos hbrace

theorem bodiesFrom_cons_of_not_brace (skip : Nat) {escaped : Bool} {c : Char} (cs : List Char)
    (hbrace : ¬ (c = '{' ∧ ¬ escaped)) :
    bodiesFrom skip escaped (c :: cs) =
      bodiesFrom (skip + c.utf8Size) (c = '\\' ∧ ¬ escaped) cs := by
  rw [bodiesFrom]
  exact if_neg hbrace

/-- The code among pieces that follow one another. -/
theorem codesFrom_append (skip : Nat) (front back : List Segment) :
    codesFrom skip (front ++ back) =
      codesFrom skip front ++
        codesFrom (skip + Text.byteCount (front.flatMap Segment.text)) back := by
  induction front generalizing skip with
  | nil => rfl
  | cons part front ih =>
    cases part with
    | chunk kind text => simp [codesFrom, ih, Segment.text, Nat.add_assoc]
    | code text => simp [codesFrom, ih, Segment.text, Nat.add_assoc]

/-! ## Runs of literal text -/

@[simp] theorem flatMap_text_literalThen (run : List Char) (rest : List Segment) :
    (literalThen run rest).flatMap Segment.text = run ++ rest.flatMap Segment.text := by
  unfold literalThen
  split
  case isTrue hnone => simp [hnone.1, hnone.2]
  case isFalse => rfl

@[simp] theorem codesFrom_literalThen (skip : Nat) (run : List Char) (rest : List Segment) :
    codesFrom skip (literalThen run rest) = codesFrom (skip + Text.byteCount run) rest := by
  unfold literalThen
  split
  case isTrue hnone => simp [hnone.1, hnone.2]
  case isFalse => rfl

/-! ## Taking a text apart -/

theorem body_append_drop (cs : List Char) : body cs ++ cs.drop (body cs).length = cs :=
  List.prefix_iff_eq_append.1 (body_isPrefix cs)

/-- What closes a body is the character after it. -/
theorem take_drop_of_drop_eq_cons {cs ds : List Char} {d : Char}
    (h : cs.drop (body cs).length = d :: ds) :
    cs.take ((body cs).length + 1) = body cs ++ [d] ∧ cs.drop ((body cs).length + 1) = ds := by
  have hcs := body_append_drop cs
  rw [h] at hcs
  constructor
  · calc cs.take ((body cs).length + 1)
        = (body cs ++ d :: ds).take ((body cs).length + 1) := by rw [hcs]
      _ = body cs ++ [d] := by rw [List.take_length_add_append]; rfl
  · calc cs.drop ((body cs).length + 1)
        = (body cs ++ d :: ds).drop ((body cs).length + 1) := by rw [hcs]
      _ = ds := by rw [List.drop_length_add_append]; rfl

/-- Only a closing brace comes right after a body. -/
theorem eq_of_drop_bodyFrom {cs ds : List Char} {d : Char} {depth : Nat} {quote : Option Char}
    {escaped : Bool} (h : cs.drop (bodyFrom cs depth quote escaped).length = d :: ds) :
    d = '}' := by
  fun_induction bodyFrom cs depth quote escaped with
  | case1 => simp at h
  | case6 => exact (List.cons.inj h).1.symm
  | case2 c cs depth q escaped hclose ih => exact ih h
  | case3 c cs depth q escaped hclose ih => exact ih h
  | case4 escaped c cs depth hquote ih => exact ih h
  | case5 cs depth escaped hquote ih => exact ih h
  | case7 cs escaped depth hquote hbrace ih => exact ih h
  | case8 escaped c cs depth hquote hopen hclose ih => exact ih h

theorem flatMap_text_cut (escaped : Bool) (cs : List Char) :
    (cut escaped cs).1 ++ (cut escaped cs).2.flatMap Segment.text = cs := by
  fun_induction cut escaped cs with
  | case1 => rfl
  | case2 escaped c cs hquote after ih =>
    simpa [Segment.text] using ih
  | case3 escaped c cs hquote hbrace code hdrop =>
    have hcs := body_append_drop cs
    rw [hdrop, List.append_nil] at hcs
    simpa [Segment.text] using hcs
  | case4 escaped c cs hquote hbrace code d ds hdrop after ih =>
    have hcs := body_append_drop cs
    rw [hdrop] at hcs
    simpa [Segment.text, after, code, ih] using hcs
  | case5 escaped c cs hquote hbrace after ih =>
    simpa [after] using ih

theorem codesFrom_cut (escaped : Bool) (cs : List Char) (skip : Nat) :
    codesFrom (skip + Text.byteCount (cut escaped cs).1) (cut escaped cs).2 =
      bodiesFrom skip escaped cs := by
  fun_induction cut escaped cs generalizing skip with
  | case1 => simp [codesFrom, bodiesFrom]
  | case2 escaped c cs hquote after ih =>
    obtain ⟨rfl, hescaped⟩ := hquote
    rw [bodiesFrom_cons_of_not_brace skip cs (by simp)]
    simpa [codesFrom] using ih (skip + Char.utf8Size '"')
  | case3 escaped c cs hquote hbrace code hdrop =>
    have hrest : cs.drop ((body cs).length + 1) = [] := by
      rw [← List.drop_drop, hdrop, List.drop_nil]
    rw [bodiesFrom_cons_of_brace skip cs hbrace, hrest]
    simp [codesFrom, bodiesFrom, code]
  | case4 escaped c cs hquote hbrace code d ds hdrop after ih =>
    obtain ⟨htake, hrest⟩ := take_drop_of_drop_eq_cons hdrop
    rw [bodiesFrom_cons_of_brace skip cs hbrace, htake, hrest, ← ih]
    simp [codesFrom, code, after, Nat.add_assoc]
  | case5 escaped c cs hquote hbrace after ih =>
    rw [bodiesFrom_cons_of_not_brace skip cs hbrace, ← ih]
    simp [after, Nat.add_assoc]

/-- The pieces of a text make up the text. -/
theorem flatMap_text_segments (cs : List Char) : (segments cs).flatMap Segment.text = cs := by
  cases cs with
  | nil => rfl
  | cons c cs =>
    rw [segments]
    split
    case isTrue => simpa [Segment.text] using flatMap_text_cut false cs
    case isFalse => simpa using flatMap_text_cut false (c :: cs)

/-- The code among the pieces of a text is the code in the text. -/
theorem codesFrom_segments (cs : List Char) : codesFrom 0 (segments cs) = bodies cs := by
  cases cs with
  | nil => simp [segments, codesFrom, bodies, bodiesFrom]
  | cons c cs =>
    rw [segments]
    split
    case isTrue hquote =>
      have hcut := codesFrom_cut false cs (0 + c.utf8Size)
      rw [bodies, bodiesFrom_cons_of_not_brace 0 cs (by simp [hquote])]
      simpa [codesFrom, hquote] using hcut
    case isFalse =>
      simpa [bodies] using codesFrom_cut false (c :: cs) 0

/-! ## What is enclosed in braces -/

theorem exists_of_mem_bodiesFrom {skip o : Nat} {escaped : Bool} {cs code : List Char}
    (h : (o, code) ∈ bodiesFrom skip escaped cs) :
    ∃ before rest, cs = before ++ '{' :: rest ∧ code = body rest ∧
      o = skip + Text.byteCount (before ++ ['{']) := by
  fun_induction bodiesFrom skip escaped cs with
  | case1 => simp at h
  | case2 skip escaped c cs start hbrace size ih =>
    rcases List.mem_cons.1 h with hhere | hlater
    · obtain ⟨rfl, rfl⟩ := Prod.mk.injEq .. ▸ hhere
      exact ⟨[], cs, by simp [hbrace.1], rfl, by simp [start, hbrace.1]⟩
    · obtain ⟨before, rest, hcs, hcode, ho⟩ := ih hlater
      refine ⟨c :: (cs.take size ++ before), rest, ?_, hcode, ?_⟩
      · rw [List.cons_append, List.append_assoc, ← hcs, List.take_append_drop]
      · rw [ho]
        simp [start, Nat.add_assoc]
  | case3 skip escaped c cs start hbrace ih =>
    obtain ⟨before, rest, hcs, hcode, ho⟩ := ih h
    refine ⟨c :: before, rest, by rw [hcs, List.cons_append], hcode, ?_⟩
    rw [ho]
    simp [start, Nat.add_assoc]

/-- The code in a text follows an opening brace and reaches to the brace that closes it. -/
theorem exists_of_mem_bodies {o : Nat} {cs code : List Char} (h : (o, code) ∈ bodies cs) :
    ∃ before rest, cs = before ++ '{' :: rest ∧ code = body rest ∧
      o = Text.byteCount (before ++ ['{']) := by
  obtain ⟨before, rest, hcs, hcode, ho⟩ := exists_of_mem_bodiesFrom h
  exact ⟨before, rest, hcs, hcode, by rw [ho, Nat.zero_add]⟩

/-- Code is what is found when a body is looked for at its place. -/
theorem bodyAt_of_mem_bodies {o : Nat} {text : String} {code : List Char}
    (h : (o, code) ∈ bodies text.toList) : bodyAt text o = String.ofList code := by
  obtain ⟨before, rest, htext, rfl, rfl⟩ := exists_of_mem_bodies h
  have hrest : Text.dropBytes? (Text.byteCount (before ++ ['{'])) text.toList = some rest := by
    have hdrop := Text.dropBytes?_append (before ++ ['{']) rest
    rwa [List.append_assoc, List.singleton_append, ← htext] at hdrop
  rw [bodyAt, hrest, Option.getD_some]

/-- Code is a piece of the text that it is found in. -/
theorem isPiece_of_mem_bodies {o : Nat} {cs code : List Char} (h : (o, code) ∈ bodies cs) :
    Text.IsPiece cs o (o + Text.byteCount code) code := by
  obtain ⟨before, rest, hcs, rfl, rfl⟩ := exists_of_mem_bodies h
  refine ⟨before ++ ['{'], rest.drop (body rest).length, ?_, rfl, rfl⟩
  rw [body_append_drop, hcs, List.append_assoc, List.singleton_append]

/-- The brace before code is not part of it. -/
theorem byteCount_lt_of_mem_bodies {o : Nat} {cs code : List Char} (h : (o, code) ∈ bodies cs) :
    Text.byteCount code < Text.byteCount cs := by
  obtain ⟨before, rest, -, -, ho⟩ := exists_of_mem_bodies h
  have hpos := Char.utf8Size_pos '{'
  have hle := (isPiece_of_mem_bodies h).stop_le
  simp only [ho, Text.byteCount_append, Text.byteCount_cons, Text.byteCount_nil] at hle
  omega

end ScriptReader.Rich
