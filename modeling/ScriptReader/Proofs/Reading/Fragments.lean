import Mathlib.Data.List.Basic
import ScriptReader.Proofs.Lexeme.Kinds
import ScriptReader.Proofs.Reading.Coverage
import ScriptReader.Proofs.Stage.Kept

/-!
# A source and the code inside it

The tokens of a source are made in two steps: first all stages that come before interpolation, which
leave rich strings as they are, and then the code in these is read and put in their place.  What the
code of an interpolation contributes is a stretch of the tokens of the source.

## Main Definitions

* `skeleton` — the tokens of a source with its rich strings still whole
* `Token.expanded` — what stands for a token once the code in it has been read
* `Contribution` — what an interpolation contributes, at any depth

## Main Statements

* `tokenize_eq` — the two steps make the tokens of a source
* `mem_lex_of_mem_skeleton` — rich strings come from the source
* `code_induction` — sources may be looked at after the code in their rich strings
* `Contribution.isInfix` — contributions are stretches of the tokens of the source

## Design Notes

Code is read only if it is shorter than the source.  It always is, so nothing of this guard is left
in `tokenize_eq`.
-/

namespace ScriptReader

variable {source : String} {kept : TokenKind → Bool} {t : Token} {us : List Token}

/-! ## Stages that look at one token at a time -/

/-- The token, told apart by its lines if it is a snippet. -/
def Token.settled (t : Token) : Token :=
  if t.kind = .embedded then
    t.withKind (if t.text.toList.contains '\n' then .embeddedBlock else .embeddedLine)
  else t

theorem Token.settled_of_ne (h : t.kind ≠ .embedded) : t.settled = t := if_neg h

theorem Token.kind_settled_ne (t : Token) : t.settled.kind ≠ .embedded := by
  unfold settled
  split
  case isTrue =>
    simp only [withKind]
    split <;> simp
  case isFalse hkind => exact hkind

theorem Stage.apply_embeddedSnippet (ts : List Token) :
    embeddedSnippet.apply ts = ts.map Token.settled := by
  rw [apply_eq_flatMap (f := fun t => [t.settled]) (fun _ _ _ _ => rfl) (fun _ _ => rfl) ts]
  exact List.flatMap_pure_eq_map Token.settled ts

/-! ## Words of the source -/

/-- Kinds that no words of lower-case letters have are not those of such words of a source. -/
theorem areNoWords_lex (hkept : ∀ k, kept k → k.isWord = false) : AreNoWords kept (lex source) := by
  intro t ht hk
  rw [Bool.eq_false_iff]
  intro hword
  have hkind := isWord_kind_of_mem_lex ht hword
  rw [hkept t.kind hk] at hkind
  simp at hkind

/-! ## The two steps of reading -/

/-- The tokens of a source after the stages before interpolation. -/
def skeleton (source : String) : List Token :=
  Pipeline.apply (.ofPasses tokenize Pass.beforeInterpolation) (lex source)

/-- What stands for a token once the code in it has been read. -/
def Token.expanded (t : Token) : List Token :=
  if t.kind = .richString then Rich.expand tokenize t else [t]

/-- The rich strings that are taken apart are those of the source. -/
theorem filter_richString_skeleton (source : String) :
    (skeleton source).filter (fun t => t.kind == .richString) =
      (lex source).filter fun t => t.kind == .richString := by
  have hkept : ∀ p ∈ Pass.beforeInterpolation, ∀ k ∈ p.touches, (k == .richString) = false := by
    decide
  refine Pipeline.filter_apply hkept (areNoWords_lex ?_)
  intro k hk
  rw [eq_of_beq hk]
  rfl

theorem mem_lex_of_mem_skeleton (h : t ∈ skeleton source) (hkind : t.kind = .richString) :
    t ∈ lex source := by
  have hmem : t ∈ (skeleton source).filter fun t => t.kind == .richString :=
    List.mem_filter.2 ⟨h, by simpa using hkind⟩
  rw [filter_richString_skeleton] at hmem
  exact (List.mem_filter.1 hmem).1

/-- The code in a rich string is shorter than the source. -/
theorem utf8ByteSize_lt_of_mem_bodies {o : Nat} {code : List Char} (ht : t ∈ lex source)
    (hcode : (o, code) ∈ Rich.bodies t.text.toList) :
    (String.ofList code).utf8ByteSize < source.utf8ByteSize := by
  have hlt := Rich.byteCount_lt_of_mem_bodies hcode
  have hle := utf8ByteSize_text_le_of_mem_lex ht
  rw [Text.byteCount_toList] at hlt
  rw [Text.utf8ByteSize_ofList]
  omega

/-- What holds of a source if it holds of the code in its rich strings holds of every source. -/
theorem code_induction {p : String → Prop}
    (h : ∀ source, (∀ t ∈ lex source, t.kind = .richString → ∀ c ∈ Rich.bodies t.text.toList,
      p (String.ofList c.2)) → p source) (source : String) : p source := by
  refine h source ?_
  intro t ht _ c hc
  have hshort := utf8ByteSize_lt_of_mem_bodies ht hc
  exact code_induction h (String.ofList c.2)
  termination_by source.utf8ByteSize
  decreasing_by exact hshort

namespace Rich

variable {read read' : String → List Token} {skip o : Nat} {parts rest : List Segment}
  {code : List Char}

theorem expandFrom_chunk (kind : TokenKind) (text : List Char) :
    expandFrom read t skip (.chunk kind text :: rest) =
      { kind := kind, text := String.ofList text,
        span := t.span.slice skip (Text.byteCount text) } ::
        expandFrom read t (skip + Text.byteCount text) rest := rfl

theorem expandFrom_code (text : List Char) :
    expandFrom read t skip (.code text :: rest) =
      (read (String.ofList text)).map (·.shifted (t.span.start.plus skip)) ++
        expandFrom read t (skip + Text.byteCount text) rest := rfl

/-- Only how the code in a rich string is read matters for what stands for it. -/
theorem expandFrom_congr
    (h : ∀ c ∈ codesFrom skip parts, read (String.ofList c.2) = read' (String.ofList c.2)) :
    expandFrom read t skip parts = expandFrom read' t skip parts := by
  induction parts generalizing skip with
  | nil => rfl
  | cons part rest ih =>
    cases part with
    | chunk kind text => rw [expandFrom_chunk, expandFrom_chunk, ih h]
    | code text =>
      obtain ⟨hcode, hrest⟩ := List.forall_mem_cons.1 h
      rw [expandFrom_code, expandFrom_code, ih hrest, hcode]

/-- The tokens of code follow one another in what stands for the rich string. -/
theorem infix_expandFrom_of_mem (h : (o, code) ∈ codesFrom skip parts) :
    (read (String.ofList code)).map (·.shifted (t.span.start.plus o)) <:+:
      expandFrom read t skip parts := by
  induction parts generalizing skip with
  | nil => simp [codesFrom] at h
  | cons part rest ih =>
    cases part with
    | chunk kind text =>
      rw [expandFrom_chunk]
      exact (ih h).trans (List.suffix_cons _ _).isInfix
    | code text =>
      rw [expandFrom_code]
      rcases List.mem_cons.1 h with hhere | hlater
      · obtain ⟨rfl, rfl⟩ := Prod.mk.injEq .. ▸ hhere
        exact (List.prefix_append _ _).isInfix
      · exact (ih hlater).trans (List.suffix_append _ _).isInfix

end Rich

/-- The tokens of a source are those of its skeleton with rich strings taken apart. -/
theorem tokenize_eq (source : String) :
    tokenize source =
      Stage.embeddedSnippet.apply ((skeleton source).flatMap Token.expanded) := by
  have hbefore (read : String → List Token) :
      Pipeline.ofPasses read Pass.beforeInterpolation =
        .ofPasses tokenize Pass.beforeInterpolation := rfl
  rw [tokenize, Pipeline.apply_standard, Stage.apply_interpolation, hbefore]
  refine congrArg _ (List.flatMap_congr ?_)
  intro t ht
  unfold Token.expanded
  by_cases hkind : t.kind = .richString
  · rw [if_pos hkind, if_pos hkind]
    refine Rich.expandFrom_congr ?_
    intro c hc
    rw [Rich.codesFrom_segments] at hc
    exact if_pos (utf8ByteSize_lt_of_mem_bodies (mem_lex_of_mem_skeleton ht hkind) hc)
  · rw [if_neg hkind, if_neg hkind]

/-- Without rich strings there is nothing to take apart. -/
theorem tokenize_eq_of_no_richString (hrich : .richString ∉ (lex source).map Token.kind) :
    tokenize source = Stage.embeddedSnippet.apply (skeleton source) := by
  have hexpanded : (skeleton source).flatMap Token.expanded = skeleton source := by
    calc (skeleton source).flatMap Token.expanded
        = (skeleton source).flatMap fun t => [t] := by
          refine List.flatMap_congr ?_
          intro t ht
          refine if_neg fun hkind => hrich ?_
          rw [← hkind]
          exact List.mem_map_of_mem (mem_lex_of_mem_skeleton ht hkind)
      _ = skeleton source := List.flatMap_singleton' _
  rw [tokenize_eq, hexpanded]

/-- No snippet is left whose lines have not been looked at. -/
theorem kind_ne_embedded_of_mem_tokenize (h : t ∈ tokenize source) : t.kind ≠ .embedded := by
  rw [tokenize_eq, Stage.apply_embeddedSnippet] at h
  obtain ⟨u, -, rfl⟩ := List.mem_map.1 h
  exact u.kind_settled_ne

/-! ## What code contributes -/

/-- The tokens `us` are what an interpolation contributes to the tokens of a source; the
interpolation may itself stand in the code of another one. -/
inductive Contribution : String → List Token → Prop
  /-- The tokens of the code in a rich string of the source, at their place in the source. -/
  | code {source : String} {t : Token} {o : Nat} {code : List Char} (mem : t ∈ lex source)
      (kind : t.kind = .richString) (body : (o, code) ∈ Rich.bodies t.text.toList) :
      Contribution source
        ((tokenize (String.ofList code)).map (·.shifted (t.span.start.plus o)))
  /-- What an interpolation contributes to the tokens of such code, at its place in the source. -/
  | inner {source : String} {t : Token} {o : Nat} {code : List Char} {us : List Token}
      (mem : t ∈ lex source) (kind : t.kind = .richString)
      (body : (o, code) ∈ Rich.bodies t.text.toList)
      (inner : Contribution (String.ofList code) us) :
      Contribution source (us.map (·.shifted (t.span.start.plus o)))

/-- The tokens of the code in a rich string follow one another in those of the source. -/
theorem infix_tokenize_of_mem_bodies {o : Nat} {code : List Char} (ht : t ∈ lex source)
    (hkind : t.kind = .richString) (hcode : (o, code) ∈ Rich.bodies t.text.toList) :
    (tokenize (String.ofList code)).map (·.shifted (t.span.start.plus o)) <:+:
      tokenize source := by
  have hmem : t ∈ skeleton source := by
    have hfilter : t ∈ (lex source).filter fun t => t.kind == .richString :=
      List.mem_filter.2 ⟨ht, by simpa using hkind⟩
    rw [← filter_richString_skeleton] at hfilter
    exact (List.mem_filter.1 hfilter).1
  have hstretch : (tokenize (String.ofList code)).map
      (·.shifted (t.span.start.plus o)) <:+:
        (skeleton source).flatMap Token.expanded := by
    refine List.IsInfix.trans ?_ (List.infix_flatMap_of_mem hmem Token.expanded)
    rw [Token.expanded, if_pos hkind]
    exact Rich.infix_expandFrom_of_mem (by rwa [Rich.codesFrom_segments])
  -- The tokens of the code have been through the last stage already.
  have hfixed : ((tokenize (String.ofList code)).map
      (·.shifted (t.span.start.plus o))).map Token.settled =
        (tokenize (String.ofList code)).map (·.shifted (t.span.start.plus o)) := by
    rw [List.map_map]
    refine List.map_congr_left ?_
    intro u hu
    have hkind : u.kind ≠ .embedded := kind_ne_embedded_of_mem_tokenize hu
    exact Token.settled_of_ne hkind
  rw [tokenize_eq source, Stage.apply_embeddedSnippet, ← hfixed]
  exact hstretch.map Token.settled

/-- What an interpolation contributes is a stretch of the tokens of the source. -/
theorem Contribution.isInfix (h : Contribution source us) : us <:+: tokenize source := by
  induction h with
  | code mem kind body => exact infix_tokenize_of_mem_bodies mem kind body
  | inner mem kind body _ ih =>
    exact (ih.map _).trans (infix_tokenize_of_mem_bodies mem kind body)

end ScriptReader
