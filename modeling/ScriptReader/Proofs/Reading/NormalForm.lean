import ScriptReader.Proofs.Reading.Members
import ScriptReader.Proofs.Rich.Endings
import ScriptReader.Proofs.Stage.Adjacency

/-!
# The normal form of the tokens of a source

A grammar need not provide for layout, for newlines that separate nothing, or for marks with nothing
to mark.  What the tokens of a source have of newlines and marks stands only where it means
something, in the code of interpolations as well as around it.

## Main Definitions

* `NewlinesSeparate` — every newline has a token on either side that it may separate
* `InNormalForm` — what else can be said of kinds and marks

## Main Statements

* `beside_skeleton`, `beside_tokenize` — neighbours meet each other's demands, before and after rich
  strings are taken apart
* `newlinesSeparate_tokenize` — newlines separate
* `inNormalForm_tokenize` — the tokens of a source are in normal form, and so is what interpolations
  contribute

## Design Notes

What the code of an interpolation is read to may stand on its own: nothing is demanded at its edges.
It may therefore stand between the pieces of a rich string.  After the rich string only a newline
could object to it, and only if the code was broken off, but then the source has ended too.
-/

namespace ScriptReader

open Demands

variable {source : String} {ts us : List Token} {t : Token} {o : Option TokenKind}

/-! ## Code in rich strings -/

namespace Rich

variable {read : String → List Token} {skip : Nat} {parts : List Segment}

/-- The kinds of the tokens that stand for a piece. -/
def Segment.kinds (read : String → List Token) : Segment → List TokenKind
  | .chunk kind _ => [kind]
  | .code text => (read (String.ofList text)).map Token.kind

theorem map_kind_expandFrom (parts : List Segment) (skip : Nat) :
    (expandFrom read t skip parts).map Token.kind = parts.flatMap (Segment.kinds read) := by
  induction parts generalizing skip with
  | nil => rfl
  | cons part rest ih =>
    rw [List.flatMap_cons, ← ih (skip + Text.byteCount part.text)]
    cases part with
    | chunk kind text => rw [expandFrom_chunk]; rfl
    | code text => rw [expandFrom_code, List.map_append, List.map_map]; rfl

theorem exists_mem_codesFrom {text : List Char} (h : .code text ∈ parts) :
    ∃ o, (o, text) ∈ codesFrom skip parts := by
  induction parts generalizing skip with
  | nil => simp at h
  | cons part rest ih =>
    rcases List.mem_cons.1 h with rfl | hlater
    · exact ⟨skip, List.mem_cons_self⟩
    · cases part with
      | chunk kind text => exact ih hlater
      | code text =>
        obtain ⟨o, ho⟩ := ih hlater
        exact ⟨o, List.mem_cons_of_mem _ ho⟩

end Rich

/-! ## Neighbours in the tokens of a source -/

theorem beside_skeleton (source : String) :
    Beside standard.Allow none ((skeleton source).map Token.kind) := by
  have hlexed : ∀ t ∈ Stage.trivia.apply (lex source), t.kind.index ≤ TokenKind.bang.index := by
    intro t ht
    rw [Stage.apply_trivia] at ht
    exact index_kind_le_of_mem_lex (List.mem_filter.1 ht).1
  have hlines := Stage.beside_newlineElision hlexed
  have hstar := Stage.beside_starOperator (Stage.beside_indentation hlines)
  have hcleanup := Stage.beside_newlineCleanup (Stage.beside_functionLiteral hstar)
  have hcascade := Stage.beside_cascade (Stage.beside_destructuring hcleanup)
  exact Stage.beside_memberName hcascade

/-- A rich string that a newline follows, at whatever distance, ends in text. -/
theorem pairwise_endsInText_skeleton (source : String) :
    (skeleton source).Pairwise fun t u =>
      t.kind = .richString → u.kind = .newline → Rich.EndsInText t.text.toList := by
  have hkept : ∀ p ∈ Pass.beforeInterpolation, p = .newlineElision ∨ p = .newlineCleanup ∨
      ∀ k ∈ p.touches, (k == .richString || k == .newline) = false := by
    decide
  have hwords : ∀ k : TokenKind, (k == .richString || k == .newline) → k.isWord = false := by
    intro k
    cases k <;> decide
  have hsublist : ((skeleton source).filter fun t =>
        t.kind == .richString || t.kind == .newline).Sublist
      ((lex source).filter fun t => t.kind == .richString || t.kind == .newline) :=
    Pipeline.sublist_filter_apply hkept (areNoWords_lex hwords)
  have hpairwise := ((pairwise_endsInText_lex source).filter _).sublist hsublist
  refine (List.pairwise_filter.1 hpairwise).imp ?_
  intro t u h ht hu
  exact h (by simp [ht]) (by simp [hu]) ht

/-- What may stand last and what is no newline may stand beside each other. -/
theorem allow_of_edge {a b : Option TokenKind} (h : standard.Allow a none)
    (hb : b ≠ some .newline) : standard.Allow a b :=
  (show IsFree a from isFree_of_after h.after (by decide)).allow hb

/-- What may stand last and what may stand first may stand beside each other. -/
theorem allow_of_edges (a b : Option TokenKind) (ha : standard.Allow a none)
    (hb : standard.Allow none b) : standard.Allow a b := by
  refine allow_of_edge ha ?_
  rintro rfl
  exact absurd hb.before (by decide)

namespace Rich

variable {read : String → List Token} {skip : Nat} {parts : List Segment} {cs : List Char}

/-- Pieces keep to the demands if the tokens of the code among them do. -/
theorem beside_flatMap_kinds
    (hparts : ∀ part ∈ parts, Beside standard.Allow none (part.kinds read)) :
    Beside standard.Allow none (parts.flatMap (Segment.kinds read)) := by
  induction parts with
  | nil => exact beside_nil.2 ⟨rfl, rfl⟩
  | cons part rest ih =>
    obtain ⟨hpart, hrest⟩ := List.forall_mem_cons.1 hparts
    exact hpart.append allow_of_edges (ih hrest)

theorem beside_kinds_of_mem_segments {part : Segment} (hpart : part ∈ segments cs)
    (hcodes : ∀ c ∈ bodies cs,
      Beside standard.Allow none ((read (String.ofList c.2)).map Token.kind)) :
    Beside standard.Allow none (part.kinds read) := by
  cases part with
  | chunk k text =>
    have hchunks : ∀ k ∈ chunkKinds, standard.after none (some k) ∧ standard.before (some k) none ∧
        standard.after (some k) none ∧ standard.before none (some k) := by
      decide
    obtain ⟨hafter, hbefore, hafter', hbefore'⟩ := hchunks k (kind_mem_of_mem_segments hpart)
    exact beside_cons.2 ⟨⟨hafter, hbefore⟩, beside_nil.2 ⟨hafter', hbefore'⟩⟩
  | code text =>
    rw [← codesFrom_segments] at hcodes
    obtain ⟨o, ho⟩ := exists_mem_codesFrom hpart
    exact hcodes _ ho

end Rich

/-- The first kind of what stands for a rich string of a source may stand where the rich string
may. -/
theorem allow_head_kinds (ht : t ∈ lex source) (ho : standard.Allow o (some .richString)) :
    standard.Allow o
      ((Rich.segments t.text.toList).flatMap (Rich.Segment.kinds tokenize)).head? := by
  have htext : ∀ k ∈ Rich.textKinds, ∀ l ∈ demanding,
      standard.after (some l) (some .richString) → standard.after (some l) (some k) := by
    decide
  have hplain : ∀ k ∈ Rich.textKinds, some k ≠ some .newline := by decide
  obtain ⟨before, c, rest, -, -, htoken, -⟩ := exists_of_mem_lex ht
  obtain ⟨tail, hfirst⟩ := Lexeme.exists_text_next c rest
  obtain ⟨k, text, parts, hparts, hk⟩ := Rich.exists_segments_cons c tail
  rw [htoken, String.toList_ofList, hfirst, hparts]
  exact ⟨after_mono ho.after (htext k hk), before_of_ne (hplain k hk)⟩

/-- A newline may follow what ends in text. -/
theorem allow_newline_of_endsInText {cs : List Char} (h : Rich.EndsInText cs) :
    standard.Allow (((Rich.segments cs).flatMap (Rich.Segment.kinds tokenize)).getLast?.or o)
      (some .newline) := by
  obtain ⟨init, k, text, hsegments, hk⟩ := h
  have hlast : ((Rich.segments cs).flatMap (Rich.Segment.kinds tokenize)).getLast? = some k := by
    rw [hsegments, List.flatMap_append]
    exact List.getLast?_concat
  have hallow : ∀ k ∈ Rich.textKinds, standard.after (some k) (some .newline) ∧
      standard.before (some .newline) (some k) := by
    decide
  rw [hlast]
  exact ⟨(hallow k hk).1, (hallow k hk).2⟩

/-- Rich strings may be taken apart, if the code in them keeps to the demands and those that
newlines follow end in text. -/
theorem beside_flatMap_expanded (hts : Beside standard.Allow o (ts.map Token.kind))
    (hrich : ∀ t ∈ ts, t.kind = .richString → t ∈ lex source)
    (hcodes : ∀ t ∈ ts, t.kind = .richString → ∀ c ∈ Rich.bodies t.text.toList,
      Beside standard.Allow none ((tokenize (String.ofList c.2)).map Token.kind))
    (hends : ts.Pairwise fun t u =>
      t.kind = .richString → u.kind = .newline → Rich.EndsInText t.text.toList) :
    Beside standard.Allow o ((ts.flatMap Token.expanded).map Token.kind) := by
  induction ts generalizing o with
  | nil => exact hts
  | cons t ts ih =>
    obtain ⟨ht, hrest⟩ := beside_cons.1 hts
    obtain ⟨hmem, hrich⟩ := List.forall_mem_cons.1 hrich
    obtain ⟨hcode, hcodes⟩ := List.forall_mem_cons.1 hcodes
    obtain ⟨hend, hends⟩ := List.pairwise_cons.1 hends
    rw [List.flatMap_cons, List.map_append]
    unfold Token.expanded
    by_cases hkind : t.kind = .richString
    · rw [if_pos hkind, Rich.expand, Rich.map_kind_expandFrom]
      have hkinds := Rich.beside_flatMap_kinds fun part hpart =>
        Rich.beside_kinds_of_mem_segments hpart (hcode hkind)
      have hhead := allow_head_kinds (hmem hkind) (hkind ▸ ht)
      refine (hkinds.of_head hhead).append_of_last fun hlast => ?_
      refine ih (hrest.of_head ?_) hrich hcodes hends
      by_cases hnewline : (ts.map Token.kind).head? = some .newline
      · obtain ⟨u, hu, hukind⟩ := List.mem_map.1 (List.mem_of_head? hnewline)
        rw [hnewline]
        exact allow_newline_of_endsInText (hend u hu hkind hukind)
      · exact allow_of_edge hlast hnewline
    · rw [if_neg hkind]
      exact beside_cons.2 ⟨ht, ih hrest hrich hcodes hends⟩

/-- The tokens of a source keep to the demands on neighbours. -/
theorem beside_tokenize (source : String) :
    Beside standard.Allow none ((tokenize source).map Token.kind) := by
  induction source using code_induction with
  | h source ih =>
    have hrich : ∀ t ∈ skeleton source, t.kind = .richString → t ∈ lex source :=
      fun t ht hkind => mem_lex_of_mem_skeleton ht hkind
    rw [tokenize_eq]
    exact Stage.beside_embeddedSnippet (beside_flatMap_expanded (beside_skeleton source) hrich
      (fun t ht hkind => ih t (hrich t ht hkind) hkind) (pairwise_endsInText_skeleton source))

theorem Contribution.beside (h : Contribution source us) :
    Beside standard.Allow none (us.map Token.kind) := by
  induction h with
  | code mem kind body =>
    rw [List.map_map]
    exact beside_tokenize _
  | inner mem kind body _ ih =>
    rw [List.map_map]
    exact ih

/-! ## Newlines -/

/-- Every newline stands between two tokens that it separates. -/
structure NewlinesSeparate (ts : List Token) : Prop where
  /-- It is not the first token, and comes after nothing that has no need of it. -/
  before : ∀ front back, ts.map Token.kind = front ++ .newline :: back →
    ∃ k, front.getLast? = some k ∧ k ∉ [TokenKind.newline, .indent, .equals]
  /-- It is not the last token, and comes before nothing that has no need of it. -/
  after : ∀ front back, ts.map Token.kind = front ++ .newline :: back →
    ∃ k, back.head? = some k ∧
      k ∉ [TokenKind.newline, .closeBracket, .closeBrace, .comma, .pipes, .cascadeRef, .elseWord,
        .catchWord, .finallyWord, .dedent]

theorem exists_of_isOther {kinds : List TokenKind} (h : isOther kinds o) :
    ∃ k, o = some k ∧ k ∉ kinds := by
  cases o with
  | none => simp at h
  | some k => exact ⟨k, rfl, by simpa using h⟩

/-- However a source is laid out, every newline among its tokens separates two others. -/
theorem newlinesSeparate_tokenize (source : String) : NewlinesSeparate (tokenize source) where
  before := by
    intro front back hkinds
    obtain ⟨hbefore, -⟩ := (hkinds ▸ beside_tokenize source).of_split
    rw [Option.or_none] at hbefore
    exact exists_of_isOther hbefore.before
  after := by
    intro front back hkinds
    obtain ⟨-, hafter⟩ := (hkinds ▸ beside_tokenize source).of_split
    exact exists_of_isOther (isOther_of_subset (by simp) hafter.after)

/-! ## Kinds and marks -/

/-- The tokens are of kinds that grammars are written for, and marks are what they should be. -/
structure InNormalForm (ts : List Token) : Prop where
  /-- Layout is gone, rich strings have been taken apart and snippets told apart. -/
  kinds : ∀ t ∈ ts, t.kind ∉ [TokenKind.blank, .comment, .richString, .embedded]
  /-- Marks stand for no text. -/
  marks : ∀ t ∈ ts, t.kind ∈ markKinds → t.isMark
  /-- A list of parameters follows its mark. -/
  functionMark : ∀ front back, ts.map Token.kind = front ++ .functionMark :: back →
    back.head? = some .openParen
  /-- A pattern follows its mark. -/
  patternMark : ∀ front back, ts.map Token.kind = front ++ .patternMark :: back →
    back.head? = some .openBrace ∨ back.head? = some .openBracket
  /-- The mark for a receiver stands before a dot. -/
  receiverMark : ∀ front back, ts.map Token.kind = front ++ .receiverMark :: back →
    back.head? = some .dot
  /-- No block is empty, nor does it start with a newline. -/
  indent : ∀ front back, ts.map Token.kind = front ++ .indent :: back →
    back.head? ≠ some .dedent ∧ back.head? ≠ some .newline

/-- What is required of each token. -/
def Token.IsNormal (t : Token) : Prop :=
  t.kind ∉ [TokenKind.blank, .comment, .richString, .embedded] ∧ (t.kind ∈ markKinds → t.isMark)

theorem InNormalForm.of_beside (hts : ∀ t ∈ ts, t.IsNormal)
    (hbeside : Beside standard.Allow none (ts.map Token.kind)) : InNormalForm ts where
  kinds t ht := (hts t ht).1
  marks t ht := (hts t ht).2
  functionMark := by
    intro front back hkinds
    obtain ⟨-, hafter⟩ := (hkinds ▸ hbeside).of_split
    exact eq_of_isAmong hafter.after
  patternMark := by
    intro front back hkinds
    obtain ⟨-, hafter⟩ := (hkinds ▸ hbeside).of_split
    have hamong : isAmong [.openBrace, .openBracket] back.head? := hafter.after
    cases hnext : back.head? with
    | none => simp [hnext] at hamong
    | some k => simpa [hnext] using hamong
  receiverMark := by
    intro front back hkinds
    obtain ⟨-, hafter⟩ := (hkinds ▸ hbeside).of_split
    exact eq_of_isAmong hafter.after
  indent := by
    intro front back hkinds
    obtain ⟨-, hafter⟩ := (hkinds ▸ hbeside).of_split
    obtain ⟨k, hk, hnot⟩ : ∃ k, back.head? = some k ∧ k ∉ [TokenKind.newline, .dedent] :=
      exists_of_isOther hafter.after
    rw [hk]
    simpa [and_comm] using hnot

/-! ### Tokens one by one -/

namespace Rich

variable {read : String → List Token} {skip : Nat} {parts : List Segment} {p : Token → Prop}

/-- What is said of the tokens of pieces and of the tokens of code is said of all that stand for a
rich string. -/
theorem forall_expandFrom (hchunk : ∀ k text span, .chunk k text ∈ parts →
      p { kind := k, text := String.ofList text, span := span })
    (hcode : ∀ c ∈ codesFrom skip parts, ∀ u ∈ read (String.ofList c.2), ∀ d, p (u.shifted d)) :
    ∀ u ∈ expandFrom read t skip parts, p u := by
  induction parts generalizing skip with
  | nil => simp [expandFrom]
  | cons part rest ih =>
    have hrest : ∀ k text span, .chunk k text ∈ rest →
        p { kind := k, text := String.ofList text, span := span } :=
      fun k text span h => hchunk k text span (List.mem_cons_of_mem _ h)
    cases part with
    | chunk kind text =>
      rw [expandFrom_chunk]
      exact List.forall_mem_cons.2 ⟨hchunk kind text _ List.mem_cons_self, ih hrest hcode⟩
    | code text =>
      obtain ⟨hhere, hlater⟩ := List.forall_mem_cons.1 hcode
      intro u hu
      rw [expandFrom_code] at hu
      rcases List.mem_append.1 hu with hmem | hmem
      · obtain ⟨v, hv, rfl⟩ := List.mem_map.1 hmem
        exact hhere v hv _
      · exact ih hrest hlater u hmem

end Rich

theorem Token.isMark_shifted (h : t.isMark) (d : Offset) : (t.shifted d).isMark := by
  simp only [isMark, Span.isEmpty, Bool.and_eq_true, beq_iff_eq] at h
  simp [isMark, shifted, Span.isEmpty, Span.offsetBy, h.1, h.2]

theorem Token.IsNormal.shifted (h : t.IsNormal) (d : Offset) : (t.shifted d).IsNormal :=
  ⟨h.1, fun hkind => Token.isMark_shifted (h.2 hkind) d⟩

/-- The last stage makes a token normal that only its lines may have to be looked at. -/
theorem Token.isNormal_settled (hkind : t.kind ∉ [TokenKind.blank, .comment, .richString])
    (hmark : t.kind ∈ markKinds → t.isMark) : t.settled.IsNormal := by
  unfold settled
  split
  case isTrue =>
    have hplain : ∀ k ∈ [TokenKind.embeddedLine, .embeddedBlock],
        k ∉ [TokenKind.blank, .comment, .richString, .embedded] ∧ k ∉ markKinds := by
      decide
    have hk : (if t.text.toList.contains '\n' then TokenKind.embeddedBlock else .embeddedLine) ∈
        [TokenKind.embeddedLine, .embeddedBlock] := by
      split <;> decide
    exact ⟨(hplain _ hk).1, fun hmem => absurd hmem (hplain _ hk).2⟩
  case isFalse hembedded => exact ⟨by simp_all, hmark⟩

/-- Before rich strings are taken apart, layout is gone already and marks stand for no text. -/
theorem kind_of_mem_skeleton :
    ∀ t ∈ skeleton source,
      t.kind ∉ [TokenKind.blank, .comment] ∧ (t.kind ∈ markKinds → t.isMark) := by
  have hmarks : ∀ k ∈ markKinds, k ∉ [TokenKind.blank, .comment] := by decide
  have hrenames : ∀ k ∈ renameKinds, k ∉ [TokenKind.blank, .comment] ∧ k ∉ markKinds := by decide
  have hskeleton : skeleton source =
      Pipeline.apply (.ofPasses tokenize Pass.beforeInterpolation.tail)
        (Stage.trivia.apply (lex source)) := rfl
  rw [hskeleton]
  refine Pipeline.forall_apply ?_ ?_ tokenize (by decide) ?_
  case refine_1 =>
    intro k hk a
    exact ⟨hmarks k hk, fun _ => by simp [Token.isMark, Token.mark, Span.isEmpty, Span.point]⟩
  case refine_2 =>
    intro k hk t _
    exact ⟨(hrenames k hk).1, fun hmem => absurd hmem (hrenames k hk).2⟩
  case refine_3 =>
    intro t ht
    rw [Stage.apply_trivia] at ht
    obtain ⟨hmem, htrivia⟩ := List.mem_filter.1 ht
    have hlate : ∀ k ∈ markKinds, TokenKind.bang.index < k.index := by decide
    refine ⟨?_, fun hkind => absurd (index_kind_le_of_mem_lex hmem) (Nat.not_le.2 (hlate _ hkind))⟩
    rintro hkind
    revert htrivia
    have hcases : t.kind = .blank ∨ t.kind = .comment := by simpa using hkind
    rcases hcases with hkind | hkind <;> simp [hkind, TokenKind.isTrivia]

theorem isNormal_tokenize (source : String) : ∀ t ∈ tokenize source, t.IsNormal := by
  induction source using code_induction with
  | h source ih =>
    rw [tokenize_eq, Stage.apply_embeddedSnippet]
    intro t ht
    obtain ⟨u, hu, rfl⟩ := List.mem_map.1 ht
    obtain ⟨v, hv, hu⟩ := List.mem_flatMap.1 hu
    obtain ⟨hkind, hmark⟩ := kind_of_mem_skeleton v hv
    unfold Token.expanded at hu
    split at hu
    case isTrue hrich =>
      have hchunks : ∀ k ∈ Rich.chunkKinds,
          k ∉ [TokenKind.blank, .comment, .richString] ∧ k ∉ markKinds := by
        decide
      have hall : ∀ u ∈ Rich.expand tokenize v,
          u.kind ∉ [TokenKind.blank, .comment, .richString] ∧ (u.kind ∈ markKinds → u.isMark) := by
        refine Rich.forall_expandFrom ?_ ?_
        case refine_1 =>
          intro k text span hk
          have hplain := hchunks k (Rich.kind_mem_of_mem_segments hk)
          exact ⟨hplain.1, fun hmem => absurd hmem hplain.2⟩
        case refine_2 =>
          intro c hc w hw d
          rw [Rich.codesFrom_segments] at hc
          have hnormal := (ih v (mem_lex_of_mem_skeleton hv hrich) hrich c hc w hw).shifted d
          have hsubset : [TokenKind.blank, .comment, .richString] ⊆
              [TokenKind.blank, .comment, .richString, .embedded] := by
            simp
          exact ⟨fun hmem => hnormal.1 (hsubset hmem), hnormal.2⟩
      exact Token.isNormal_settled (hall u hu).1 (hall u hu).2
    case isFalse hrich =>
      obtain rfl := List.mem_singleton.1 hu
      refine Token.isNormal_settled ?_ hmark
      simp_all

theorem Contribution.isNormal (h : Contribution source us) : ∀ u ∈ us, u.IsNormal := by
  induction h with
  | code mem kind body =>
    intro u hu
    obtain ⟨v, hv, rfl⟩ := List.mem_map.1 hu
    exact (isNormal_tokenize _ v hv).shifted _
  | inner mem kind body _ ih =>
    intro u hu
    obtain ⟨v, hv, rfl⟩ := List.mem_map.1 hu
    exact (ih v hv).shifted _

/-- The tokens of every source are in normal form, and so are the stretches of these that
interpolations contribute, however deep they stand. -/
theorem inNormalForm_tokenize (source : String) :
    InNormalForm (tokenize source) ∧
      ∀ us, Contribution source us → us <:+: tokenize source ∧ InNormalForm us := by
  constructor
  · exact .of_beside (isNormal_tokenize source) (beside_tokenize source)
  · intro us hus
    exact ⟨hus.isInfix, .of_beside hus.isNormal hus.beside⟩

end ScriptReader
