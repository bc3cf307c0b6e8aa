import ScriptReader.Proofs.Reading.Fragments
import ScriptReader.Proofs.Rich.Pieces
import ScriptReader.Proofs.Stage.Sites

/-!
# Implicit blocks in the tokens of a source

The marks of blocks are made by one stage and passed on by all later ones, so that what holds of
them right after that stage holds in the end.  Code in rich strings is read on its own, and what it
contributes has blocks of its own that balance.

## Main Definitions

* `lines` — the tokens of a source before its blocks are marked
* `withBlocks` — the tokens of a source when its blocks have been marked

## Main Statements

* `filter_skeleton` — brackets and the marks of blocks come through all stages after that
* `blocksBalance_tokenize` — blocks balance, in the source and in what interpolations contribute
* `nestedIn_tokenize` — blocks are well nested with braces, and with all brackets just if square
  brackets hold their blocks

## Design Notes

Rich strings may be broken off in the middle of an interpolation, whose opening brace then has no
closing one.  Blocks are therefore looked at without the braces around them.
-/

namespace ScriptReader

variable {source : String} {kept : TokenKind → Bool} {pairs : List TokenKind} {t : Token}

/-! ## The marks of blocks among the stages -/

theorem isNesting_of_isBracket : ∀ k : TokenKind, k.isBracket → k.isNesting := by
  intro k
  cases k <;> decide

theorem isNesting_of_isBlockMark : ∀ k : TokenKind, k.isBlockMark → k.isNesting := by
  intro k
  cases k <;> decide

/-- The tokens of a source without blanks, comments and needless newlines. -/
def lines (source : String) : List Token :=
  Stage.newlineElision.apply (Stage.trivia.apply (lex source))

/-- The tokens of a source when its blocks have been marked. -/
def withBlocks (source : String) : List Token := Stage.indentation.apply (lines source)

/-- The stages between that for blocks and that for interpolations. -/
def Pass.afterBlocks : List Pass :=
  [.starOperator, .functionLiteral, .newlineCleanup, .destructuring, .cascade, .memberName]

theorem skeleton_eq (source : String) :
    skeleton source = Pipeline.apply (.ofPasses tokenize Pass.afterBlocks) (withBlocks source) :=
  rfl

/-- What is no layout comes through to the stage for blocks. -/
theorem filter_lines (hkept : ∀ k ∈ [TokenKind.blank, .comment, .newline], kept k = false) :
    (lines source).filter (fun t => kept t.kind) =
      (lex source).filter fun t => kept t.kind := by
  have htrivia : ∀ k ∈ Pass.trivia.touches, kept k = false := by
    intro k hk
    have hlayout : k = .blank ∨ k = .comment := by simpa [Pass.touches] using hk
    rcases hlayout with rfl | rfl
    · exact hkept _ (by simp)
    · exact hkept _ (by simp)
  unfold lines
  rw [Stage.keeps_newlineElision (hkept _ (by simp)), Stage.keeps_trivia htrivia]

/-- No lexeme is the mark of a block. -/
theorem no_marks_lines : ∀ t ∈ lines source, t.kind ≠ .indent ∧ t.kind ≠ .dedent := by
  have hlexed : ∀ t ∈ lex source, t.kind.isBlockMark → False := by
    intro t ht hpaired
    have hle := index_kind_le_of_mem_lex ht
    rcases isBlockMark_iff.1 hpaired with hkind | hkind
    · rw [hkind] at hle
      exact absurd hle (by decide)
    · rw [hkind] at hle
      exact absurd hle (by decide)
  have hlines : ∀ t ∈ lines source, t.kind.isBlockMark → False :=
    forall_of_filter_eq (filter_lines (by decide)) hlexed
  intro t ht
  rw [← not_or, ← isBlockMark_iff]
  exact hlines t ht

/-- Brackets and the marks of blocks come through all later stages. -/
theorem filter_skeleton (source : String) :
    (skeleton source).filter (fun t => t.kind.isNesting) =
      (withBlocks source).filter fun t => t.kind.isNesting := by
  have hkept : ∀ p ∈ Pass.afterBlocks, ∀ k ∈ p.touches, k.isNesting = false := by decide
  have hnames : ∀ k : TokenKind, k.isNesting → k.isWord = false := by
    intro k
    cases k <;> decide
  have hlines : AreNoWords TokenKind.isNesting (lines source) :=
    forall_of_filter_eq (filter_lines (by decide)) (areNoWords_lex hnames)
  rw [skeleton_eq]
  exact Pipeline.filter_apply hkept (Stage.areNoWords_indentation hlines)

/-! ## Rich strings -/

namespace Rich

/-- What stands for a rich string is well nested if the tokens of its code are and the others do not
count. -/
theorem nestedIn_expandFrom {read : String → List Token} {skip : Nat} {parts : List Segment}
    (hchunks : ∀ k text, .chunk k text ∈ parts → k.isPaired pairs = false)
    (hcodes : ∀ c ∈ codesFrom skip parts,
      NestedIn pairs ((read (String.ofList c.2)).map Token.kind)) :
    NestedIn pairs ((expandFrom read t skip parts).map Token.kind) := by
  induction parts generalizing skip with
  | nil => rfl
  | cons part rest ih =>
    have hrest : ∀ k text, .chunk k text ∈ rest → k.isPaired pairs = false :=
      fun k text h => hchunks k text (List.mem_cons_of_mem _ h)
    cases part with
    | chunk kind text =>
      have hkind : NestedIn pairs [kind] :=
        nestedIn_of_not_isPaired (by simpa using hchunks kind text List.mem_cons_self)
      rw [expandFrom_chunk]
      exact hkind.append (ih hrest hcodes)
    | code text =>
      obtain ⟨hcode, hlater⟩ := List.forall_mem_cons.1 hcodes
      rw [expandFrom_code, List.map_append, List.map_map]
      exact NestedIn.append hcode (ih hrest hlater)

end Rich

/-! ## Blocks balance -/

/-- Blocks are well nested right after they are marked. -/
theorem nestedIn_indent_withBlocks (source : String) :
    NestedIn [.indent] ((withBlocks source).map Token.kind) :=
  Stage.nestedIn_indentation (by simp) no_marks_lines (by simp)

/-- What stands for a token once the code in it has been read does to blocks what the token does,
if blocks are well nested in that code. -/
theorem unclosed_indent_expanded {opened : List TokenKind}
    (hcodes : t.kind = .richString → ∀ c ∈ Rich.bodies t.text.toList,
      NestedIn [.indent] ((tokenize (String.ofList c.2)).map Token.kind)) :
    unclosed [.indent] opened (t.expanded.map Token.kind) =
      readPair [.indent] opened t.kind := by
  unfold Token.expanded
  split
  case isTrue hkind =>
    have hskip : t.kind.isPaired [.indent] = false := by
      rw [hkind]
      rfl
    have hchunks : ∀ k text, .chunk k text ∈ Rich.segments t.text.toList →
        k.isPaired [.indent] = false := by
      intro k text hmem
      have hall : ∀ k ∈ Rich.chunkKinds, k.isPaired [.indent] = false := by decide
      exact hall k (Rich.kind_mem_of_mem_segments hmem)
    have hnested := hcodes hkind
    rw [← Rich.codesFrom_segments] at hnested
    rw [readPair_of_not_isPaired hskip]
    exact (Rich.nestedIn_expandFrom hchunks hnested).unclosed_eq
  case isFalse => exact unclosed_singleton

/-- Blocks are well nested in the tokens of a source, however deep its code goes. -/
theorem nestedIn_indent_tokenize (source : String) :
    NestedIn [.indent] ((tokenize source).map Token.kind) := by
  induction source using code_induction with
  | h source ih =>
    have hskeleton : NestedIn [.indent] ((skeleton source).map Token.kind) :=
      (nestedIn_congr isNesting_of_isBlockMark (filter_skeleton source)).2
        (nestedIn_indent_withBlocks source)
    have hexpanded : NestedIn [.indent]
        (((skeleton source).flatMap Token.expanded).map Token.kind) := by
      refine Eq.trans (unclosed_flatMap ?_) hskeleton
      intro t ht opened
      exact unclosed_indent_expanded fun hkind =>
        ih t (mem_lex_of_mem_skeleton ht hkind) hkind
    have hkept : ∀ k ∈ Pass.embeddedSnippet.touches, k.isPaired [.indent] = false := by decide
    have hsnippets := Stage.keeps_embeddedSnippet hkept ((skeleton source).flatMap Token.expanded)
    rw [tokenize_eq]
    exact (nestedIn_congr (fun _ hk => hk) hsnippets).2 hexpanded

theorem Contribution.nestedIn_indent {us : List Token} (h : Contribution source us) :
    NestedIn [.indent] (us.map Token.kind) := by
  induction h with
  | code mem kind body =>
    rw [List.map_map]
    exact nestedIn_indent_tokenize _
  | inner mem kind body _ ih =>
    rw [List.map_map]
    exact ih

/-- Blocks balance in the tokens of every source, and on their own in the stretch of these that an
interpolation contributes, however deep it stands. -/
theorem blocksBalance_tokenize (source : String) :
    BlocksBalance (tokenize source) ∧
      ∀ us, Contribution source us → us <:+: tokenize source ∧ BlocksBalance us := by
  constructor
  · exact (nestedIn_indent_tokenize source).blocksBalance
  · intro us hus
    exact ⟨hus.isInfix, hus.nestedIn_indent.blocksBalance⟩

/-! ## Blocks among brackets -/

/-- Without rich strings, brackets and the marks of blocks come through to the end. -/
theorem filter_tokenize (hrich : .richString ∉ (lex source).map Token.kind) :
    (tokenize source).filter (fun t => t.kind.isNesting) =
      (withBlocks source).filter fun t => t.kind.isNesting := by
  rw [tokenize_eq_of_no_richString hrich, Stage.keeps_embeddedSnippet (by decide), filter_skeleton]

/-- Brackets come through to the stage for blocks. -/
theorem nestedIn_brackets_lines (hlexed : NestedIn brackets ((lex source).map Token.kind)) :
    NestedIn brackets ((lines source).map Token.kind) :=
  (nestedIn_congr (fun _ hk => hk) (filter_lines (by decide))).2 hlexed

/-- They come through that stage too. -/
theorem nestedIn_brackets_withBlocks (hlexed : NestedIn brackets ((lex source).map Token.kind)) :
    NestedIn brackets ((withBlocks source).map Token.kind) :=
  (nestedIn_congr (fun _ hk => hk) (Stage.keeps_indentation rfl rfl _)).2
    (nestedIn_brackets_lines hlexed)

theorem nestedIn_braces_withBlocks (hlexed : NestedIn brackets ((lex source).map Token.kind)) :
    NestedIn [.openBrace, .indent] ((withBlocks source).map Token.kind) := by
  refine Stage.nestedIn_indentation (by simp) no_marks_lines fun _ => ?_
  exact (nestedIn_brackets_lines hlexed).of_subset (by decide) (by decide)

/-- No block starts or ends directly in parentheses. -/
theorem openParen_not_mem_blockSites_withBlocks
    (hlexed : NestedIn brackets ((lex source).map Token.kind)) :
    some .openParen ∉ blockSites ((withBlocks source).map Token.kind) := by
  intro hsite
  rcases Stage.mem_blockSites_indentation no_marks_lines (nestedIn_brackets_lines hlexed) hsite with
    hnone | hbrace | hnewline
  · simp at hnone
  · simp at hbrace
  · exact Stage.openParen_not_mem_sites_newlineElision _ hnewline

/-- In a source without rich strings whose brackets are well nested, blocks are well nested with
braces, and none starts or ends directly in parentheses.  They are well nested with all brackets
just if no block is left open where square brackets close around its start, and none ends in square
brackets that started before them, as when none starts or ends directly in square brackets. -/
theorem nestedIn_tokenize (hrich : .richString ∉ (lex source).map Token.kind)
    (hlexed : NestedIn brackets ((lex source).map Token.kind)) :
    NestedIn [.openBrace, .indent] ((tokenize source).map Token.kind) ∧
      some .openParen ∉ blockSites ((tokenize source).map Token.kind) ∧
      (NestedIn (.indent :: brackets) ((tokenize source).map Token.kind) ↔
        HoldsBlocks brackets .openBracket ((tokenize source).map Token.kind)) ∧
      (some .openBracket ∉ blockSites ((tokenize source).map Token.kind) →
        NestedIn (.indent :: brackets) ((tokenize source).map Token.kind)) := by
  have hfilter := filter_tokenize hrich
  have hbrackets : NestedIn brackets ((tokenize source).map Token.kind) :=
    (nestedIn_congr isNesting_of_isBracket hfilter).2 (nestedIn_brackets_withBlocks hlexed)
  have hbraces : NestedIn [.openBrace, .indent] ((tokenize source).map Token.kind) := by
    refine (nestedIn_congr ?_ hfilter).2 (nestedIn_braces_withBlocks hlexed)
    intro k
    cases k <;> decide
  have hparen : some .openParen ∉ blockSites ((tokenize source).map Token.kind) := by
    have hsites : blockSites ((tokenize source).map Token.kind) =
        blockSites ((withBlocks source).map Token.kind) :=
      sites_congr isNesting_of_isBlockMark isNesting_of_isBracket hfilter
    rw [hsites]
    exact openParen_not_mem_blockSites_withBlocks hlexed
  have hbrace : HoldsBlocks brackets .openBrace ((tokenize source).map Token.kind) := by
    have honly : HoldsBlocks [.openBrace] .openBrace ((tokenize source).map Token.kind) := by
      refine (nestedIn_cons_indent_iff (by decide) ?_ (nestedIn_indent_tokenize source)).1 ?_ _
        (List.mem_singleton_self _)
      · exact hbrackets.of_subset (by decide) (by decide)
      · exact hbraces.of_subset (by decide) (by decide)
    exact honly.of_subset (by decide) (by decide)
  have hiff := nestedIn_cons_indent_iff (fun _ hk => hk) hbrackets (nestedIn_indent_tokenize source)
  refine ⟨hbraces, hparen, ⟨fun h => hiff.1 h _ (by decide), fun hsquare => hiff.2 fun _ ho => ?_⟩,
    fun hbracket => hiff.2 fun _ ho => ?_⟩
  · exact holdsBlocks_of_bare [.openParen] (by simpa using hparen)
      (by simpa [brackets] using ⟨hsquare, hbrace⟩) ho
  · exact holdsBlocks_of_bare [.openParen, .openBracket]
      (by simpa using ⟨hparen, hbracket⟩) (by simpa [brackets] using hbrace) ho

/-- A block that starts directly in square brackets and ends on a later line in them. -/
theorem nestedIn_tokenize_lines :
    .richString ∉ (lex "[ do\n  x\n y ]").map Token.kind ∧
    NestedIn brackets ((lex "[ do\n  x\n y ]").map Token.kind) ∧
    some .openBracket ∈ blockSites ((tokenize "[ do\n  x\n y ]").map Token.kind) ∧
    NestedIn (.indent :: brackets) ((tokenize "[ do\n  x\n y ]").map Token.kind) ∧
    HoldsBlocks brackets .openBracket ((tokenize "[ do\n  x\n y ]").map Token.kind) := by
  have hlex : (lex "[ do\n  x\n y ]").map Token.kind =
      [.openBracket, .blank, .doWord, .newline, .identifier, .newline, .identifier, .blank,
        .closeBracket] := by
    decide +kernel
  have htokens : (tokenize "[ do\n  x\n y ]").map Token.kind =
      [.openBracket, .doWord, .indent, .identifier, .dedent, .newline, .identifier,
        .closeBracket] := by
    decide +kernel
  have hrich : .richString ∉ (lex "[ do\n  x\n y ]").map Token.kind := by
    rw [hlex]
    decide
  have hlexed : NestedIn brackets ((lex "[ do\n  x\n y ]").map Token.kind) := by
    rw [hlex]
    decide
  have hnested : NestedIn (.indent :: brackets) ((tokenize "[ do\n  x\n y ]").map Token.kind) := by
    rw [htokens]
    decide
  refine ⟨hrich, hlexed, ?_, hnested, (nestedIn_tokenize hrich hlexed).2.2.1.1 hnested⟩
  rw [htokens]
  decide

/-- A block that starts directly in square brackets is still open when these are closed. -/
theorem not_nestedIn_tokenize_bracket :
    .richString ∉ (lex "[ do\n x ]").map Token.kind ∧
    NestedIn brackets ((lex "[ do\n x ]").map Token.kind) ∧
    ¬ NestedIn (.indent :: brackets) ((tokenize "[ do\n x ]").map Token.kind) := by
  have hlex : (lex "[ do\n x ]").map Token.kind =
      [.openBracket, .blank, .doWord, .newline, .identifier, .blank, .closeBracket] := by
    decide +kernel
  have htokens : (tokenize "[ do\n x ]").map Token.kind =
      [.openBracket, .doWord, .indent, .identifier, .closeBracket, .dedent] := by
    decide +kernel
  rw [hlex, htokens]
  decide

end ScriptReader
