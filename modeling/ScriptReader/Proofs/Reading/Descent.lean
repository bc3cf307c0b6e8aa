import Mathlib.Data.List.Chain
import Mathlib.Logic.Relation
import ScriptReader.Proofs.Reading.Fragments
import ScriptReader.Proofs.Rich.Rounds

/-!
# Reading descends into code

To read a source is to read the code in its rich strings, which is to read the code in the rich
strings of that, and so on.  Whatever the source is, this comes to an end: code lies inside of what
it is handed over from, without the quote and the brace before it, so that there are at most half as
many readings inside of one another as there are bytes.

## Main Definitions

* `HandsOver` — reading a source hands over some code to be read
* `IsInside` — a text is a piece of another one, and shorter by two bytes or more
* `Reads` — reading a source comes to an end with some tokens, if code is read whatever its length
* `ReadingDescends` — what is said of all readings inside of a source

## Main Statements

* `HandsOver.isInside` — code that is handed over lies inside of the source
* `reads_iff` — reading comes to an end, with the tokens of the source
* `readingDescends` — reading descends into every source

## Design Notes

`tokenize` reads code only if it is shorter than the source, and so ends for a reason of its own.
`Reads` has no such guard: it is the recursion as it would be if nothing were known of the code.
Since it has the same result, the guard never makes a difference.
-/

namespace ScriptReader

open Relation

variable {source code : String} {read : String → List Token} {t : Token} {ts : List Token}

/-! ## Code that is handed over -/

/-- Reading `source` hands over `code` to be read on its own. -/
def HandsOver (source code : String) : Prop :=
  ∃ t ∈ skeleton source, t.kind = .richString ∧ code ∈ Rich.codes t

/-- The text `part` is a piece of `whole`, and shorter by two bytes or more. -/
structure IsInside (whole part : String) : Prop where
  /-- It is a piece. -/
  isPiece : ∃ start stop, Text.IsPiece whole.toList start stop part.toList
  /-- Two bytes or more are not part of it. -/
  size_le : part.utf8ByteSize + 2 ≤ whole.utf8ByteSize

/-- A rich string does not begin with a brace. -/
theorem Lexeme.ne_brace_of_kind_next {c : Char} {cs : List Char}
    (h : (next c cs).kind = .richString) : c ≠ '{' := by
  rintro rfl
  obtain ⟨tail, htext⟩ := exists_text_next '{' cs
  have hname : String.ofList (next '{' cs).text = _ := ofWord_eq_richString h
  have hfirst := congrArg (fun s => s.toList.head?) hname
  have hletter : TokenKind.richString.name.toList.head? = some 'r' := rfl
  rw [String.toList_ofList, htext, List.head?_cons, hletter] at hfirst
  exact absurd (Option.some.inj hfirst) (by decide)

/-- Something comes before the brace before code. -/
theorem two_le_of_mem_bodies {o : Nat} {cs : List Char} (ht : t ∈ lex source)
    (hkind : t.kind = .richString) (h : (o, cs) ∈ Rich.bodies t.text.toList) : 2 ≤ o := by
  obtain ⟨before, rest, htext, -, rfl⟩ := Rich.exists_of_mem_bodies h
  obtain ⟨-, c, tail, -, hlexeme, hchars, -⟩ := exists_of_mem_lex ht
  obtain ⟨others, hfirst⟩ := Lexeme.exists_text_next c tail
  rw [hchars, String.toList_ofList, hfirst] at htext
  cases before with
  | nil =>
    obtain ⟨hbrace, -⟩ := List.cons.inj htext
    exact absurd hbrace (Lexeme.ne_brace_of_kind_next (hlexeme ▸ hkind))
  | cons d before =>
    have hpos := d.utf8Size_pos
    have hone : Text.byteCount ['{'] = 1 := rfl
    rw [Text.byteCount_append, Text.byteCount_cons, hone]
    omega

/-- **Code lies inside of the source that it is handed over from.** -/
theorem HandsOver.isInside (h : HandsOver source code) : IsInside source code := by
  obtain ⟨t, ht, hkind, hcode⟩ := h
  obtain ⟨⟨o, cs⟩, hbody, rfl⟩ := List.mem_map.1 hcode
  have ht := mem_lex_of_mem_skeleton ht hkind
  have htwo := two_le_of_mem_bodies ht hkind hbody
  obtain ⟨start, stop, htext⟩ := isPiece_text_of_mem_lex ht
  have hpiece : Text.IsPiece source.toList (start + o) (start + (o + Text.byteCount cs))
      (String.ofList cs).toList := by
    rw [String.toList_ofList]
    exact htext.trans (Rich.isPiece_of_mem_bodies hbody)
  have hsize : (String.ofList cs).utf8ByteSize + 2 ≤ source.utf8ByteSize := by
    have hle := hpiece.stop_le
    rw [Text.byteCount_toList] at hle
    rw [Text.utf8ByteSize_ofList]
    omega
  exact ⟨⟨_, _, hpiece⟩, hsize⟩

/-! ## Readings inside of one another -/

/-- Each reading takes two bytes or more off. -/
theorem two_mul_length_le {fragments : List String}
    (h : (source :: fragments).IsChain IsInside) :
    2 * fragments.length ≤ source.utf8ByteSize := by
  induction fragments generalizing source with
  | nil => exact Nat.zero_le _
  | cons code fragments ih =>
    obtain ⟨hinside, hfragments⟩ := List.isChain_cons_cons.1 h
    have hsize := hinside.size_le
    have hle := ih hfragments
    rw [List.length_cons]
    omega

/-- Reading `source` comes to an end with the tokens `ts`: so does reading each code that is handed
over, whatever its length, and its tokens take part in those of the source. -/
inductive Reads : String → List Token → Prop
  /-- The tokens of the source, once all code has been read. -/
  | of_codes {source : String} {read : String → List Token}
      (codes : ∀ code, HandsOver source code → Reads code (read code)) :
      Reads source ((Pipeline.ofPasses read Pass.standard).apply (lex source))

/-- Only how the code that is handed over is read makes a difference. -/
theorem apply_standard_eq_tokenize (h : ∀ code, HandsOver source code → read code = tokenize code) :
    (Pipeline.ofPasses read Pass.standard).apply (lex source) = tokenize source := by
  have hbefore : Pipeline.ofPasses read Pass.beforeInterpolation =
      .ofPasses tokenize Pass.beforeInterpolation := rfl
  rw [Pipeline.apply_standard, Stage.apply_interpolation, tokenize_eq, hbefore]
  refine congrArg _ (List.flatMap_congr ?_)
  intro t ht
  unfold Token.expanded
  by_cases hkind : t.kind = .richString
  · rw [if_pos hkind, if_pos hkind]
    refine Rich.expandFrom_congr ?_
    intro c hc
    rw [Rich.codesFrom_segments] at hc
    exact h _ ⟨t, ht, hkind, List.mem_map_of_mem hc⟩
  · rw [if_neg hkind, if_neg hkind]

/-- Reading a source comes to an end with its tokens. -/
theorem reads_tokenize (source : String) : Reads source (tokenize source) := by
  have hcodes : ∀ code, HandsOver source code → Reads code (tokenize code) := by
    intro code hcode
    have hshort := hcode.isInside.size_le
    exact reads_tokenize code
  have hreads := Reads.of_codes hcodes
  rwa [apply_standard_eq_tokenize fun _ _ => rfl] at hreads
  termination_by source.utf8ByteSize
  decreasing_by omega

/-- **Reading comes to an end, and in one way only.** -/
theorem reads_iff : Reads source ts ↔ ts = tokenize source := by
  constructor
  · intro h
    induction h with
    | of_codes codes ih => exact apply_standard_eq_tokenize ih
  · rintro rfl
    exact reads_tokenize source

/-! ## Descending into a source -/

/-- What is said of all readings inside of a source. -/
structure ReadingDescends (source : String) : Prop where
  /-- At any depth, code lies inside of the code that it is handed over from. -/
  isInside : ∀ fragment code, ReflTransGen HandsOver source fragment → HandsOver fragment code →
    IsInside fragment code
  /-- There are at most half as many readings inside of one another as there are bytes. -/
  length_le : ∀ fragments : List String, (source :: fragments).IsChain HandsOver →
    fragments.length ≤ source.utf8ByteSize / 2
  /-- At any depth, rich strings are run through from their first byte to their last. -/
  runsThrough : ∀ fragment t, ReflTransGen HandsOver source fragment → t ∈ skeleton fragment →
    t.kind = .richString → Rich.RunsThrough tokenize t
  /-- Reading comes to an end with the tokens of the source, and with no others. -/
  reads_iff : ∀ ts, Reads source ts ↔ ts = tokenize source

/-- **Reading descends into every source**, however malformed. -/
theorem readingDescends (source : String) : ReadingDescends source where
  isInside _ _ _ h := h.isInside
  length_le fragments h := by
    have hinside : (source :: fragments).IsChain IsInside := h.imp fun _ _ h => h.isInside
    have hle := two_mul_length_le hinside
    omega
  runsThrough _ t _ _ _ := Rich.runsThrough tokenize t
  reads_iff _ := ScriptReader.reads_iff

end ScriptReader
