import ScriptReader.Proofs.Reading.Members
import ScriptReader.Proofs.Stage.Patterns

/-!
# Patterns at the start of lines

A line may begin with a pattern, in brackets or braces, to which a value is assigned.  The mark for
the pattern depends on the token before it when marks are made, and the newline may be gone by then.

## Main Definitions

* `BeginsLine` — a bracket begins a line, and an assignment follows its group
* `Token.IsInert` — a token that the stages after that for patterns do nothing to

## Main Statements

* `BeginsLine.standsAfter` — without blanks and comments the bracket comes right after the newline
* `exists_tokenize_pattern` — a pattern that begins a line is marked, unless the newline has been
  dropped after an opening brace or bracket or after the sign of an assignment
* `not_mem_tokenize_patternMark` — it is not marked at the start of a group in braces

## Design Notes

Where the newline has been dropped, the last token before it is found again in front of the pattern.
After the sign of an assignment it is a value that begins there, and no pattern, unless a block ends
in between, which keeps the newline.  After an opening brace it is a statement that begins there as
on any later line, but what would tell so is gone before the stage for patterns looks for it.
-/

namespace ScriptReader

/-- The bracket `g` behind the lexemes `front` begins a line of a source without rich strings,
outside of all parentheses.  In the lexemes `rest` its group is closed, and an assignment
follows. -/
structure BeginsLine (source : String) (front : List Token) (g : Token) (rest : List Token) :
    Prop where
  /-- There are no rich strings. -/
  no_richString : .richString ∉ (lex source).map Token.kind
  /-- These are the lexemes of the source. -/
  lex_eq : lex source = front ++ g :: rest
  /-- Up to blanks and comments the bracket comes after a newline. -/
  line : precedingKind front = some .newline
  /-- No parenthesis is open. -/
  no_paren : .openParen ∉ openBrackets front
  /-- It is a brace or a square bracket. -/
  opener : g.kind ∈ [.openBrace, .openBracket]
  /-- Its group is closed, and up to blanks and comments an assignment comes next. -/
  assigned : ∃ inner c back, rest = inner ++ c :: back ∧ c.kind.partner? = some g.kind ∧
    NestedIn brackets (inner.map Token.kind) ∧
      ∃ e ∈ (back.filter fun t => !t.kind.isTrivia).head?, e.kind ∈ [.equals, .define]

variable {source : String} {front rest : List Token} {g t v : Token}

/-! ## Tokens of sources -/

/-- No lexeme is a mark. -/
theorem not_mem_marks_of_mem_lex (ht : t ∈ lex source) :
    t.kind ∉ [.indent, .dedent, .functionMark, .patternMark] := by
  have hmarks : ∀ k ∈ [TokenKind.indent, .dedent, .functionMark, .patternMark],
      ¬ k.index ≤ TokenKind.bang.index := by decide
  exact fun hmem => hmarks t.kind hmem (index_kind_le_of_mem_lex ht)

/-- What is neither a blank nor a comment is left without these. -/
theorem filterMap_content?_filter (ts : List Token) :
    (ts.filter fun t => !t.kind.isTrivia).filterMap Token.content? =
      ts.filterMap Token.content? := by
  rw [List.filterMap_filter]
  refine List.filterMap_congr fun t _ => ?_
  split
  case isTrue => rfl
  case isFalse htrivia =>
    have hunseen : t.kind ∈ Token.unseenKinds := by
      revert htrivia
      cases t.kind <;> decide
    rw [Token.content?, if_pos hunseen]

/-- Of lexemes all but layout is left. -/
theorem getLast?_filter_of_content? {ts : List Token} (hts : ∀ t ∈ ts, t ∈ lex source)
    (hv : v.kind ≠ .multiplicative) (hlast : (ts.filterMap Token.content?).getLast? = some v) :
    (ts.filter fun t => t.kind ∉ [.blank, .comment, .newline]).getLast? = some v := by
  induction ts using List.reverseRecOn with
  | nil => simp at hlast
  | append_singleton ts t ih =>
    have hmarks := not_mem_marks_of_mem_lex (hts t (by simp))
    rw [List.filterMap_append] at hlast
    rw [List.filter_append]
    by_cases ht : t.kind ∈ [.blank, .comment, .newline]
    · have hunseen : t.kind ∈ Token.unseenKinds := by
        revert ht
        cases t.kind <;> decide
      have hnone : t.content? = none := if_pos hunseen
      rw [List.filterMap_cons_none hnone, List.filterMap_nil, List.append_nil] at hlast
      rw [List.filter_cons_of_neg (by rwa [decide_eq_true_eq, not_not]), List.filter_nil,
        List.append_nil]
      exact ih (fun u hu => hts u (List.mem_append_left _ hu)) hlast
    · have hseen : t.kind ∉ Token.unseenKinds := by
        revert ht hmarks
        cases t.kind <;> decide
      have hsome : t.content? =
          some (if t.kind = .star then t.withKind .multiplicative else t) := if_neg hseen
      rw [List.filterMap_cons_some hsome, List.filterMap_nil, List.getLast?_concat] at hlast
      rw [List.filter_cons_of_pos (by rwa [decide_eq_true_eq]), List.filter_nil,
        List.getLast?_concat]
      split at hlast
      case isTrue => exact absurd (congrArg Token.kind (Option.some.inj hlast)).symm hv
      case isFalse => exact hlast

/-! ## Lines that begin with a pattern -/

/-- What closes a brace or a bracket is not a parenthesis. -/
theorem closer_of_partner? {k o : TokenKind} (h : k.partner? = some o)
    (ho : o ∈ [.openBrace, .openBracket]) : k ∈ [.closeBrace, .closeBracket] := by
  cases k with
  | closeBrace => decide
  | closeBracket => decide
  | closeParen =>
    obtain rfl := Option.some.inj h
    simp at ho
  | dedent =>
    obtain rfl := Option.some.inj h
    simp at ho
  | _ => simp [TokenKind.partner?] at h

/-- Without blanks and comments the bracket comes right after the newline, and its group right
before the assignment. -/
theorem BeginsLine.standsAfter (h : BeginsLine source front g rest) :
    StandsAfter [.newline] front g (Stage.trivia.apply (lex source)) := by
  have hsolid : ∀ k ∈ [TokenKind.openBrace, .openBracket, .closeBrace, .closeBracket],
      (!k.isTrivia) = true := by decide
  have hbracket : ∀ k : TokenKind, (k.isBracket && !k.isTrivia) = k.isBracket := by
    intro k
    cases k <;> decide
  obtain ⟨inner, c, back, hrest, hpartner, hinner, e, hnext, he⟩ := h.assigned
  obtain ⟨back', hback⟩ := List.head?_eq_some_iff.1 hnext
  have hcloser := closer_of_partner? hpartner h.opener
  have hg : (!g.kind.isTrivia) = true := hsolid _ (List.mem_append_left [_, _] h.opener)
  have hc : (!c.kind.isTrivia) = true := hsolid _ (List.mem_append_right [_, _] hcloser)
  rw [h.lex_eq, hrest, Stage.apply_trivia, List.filter_append,
    List.filter_cons_of_pos (by exact hg), List.filter_append,
    List.filter_cons_of_pos (by exact hc), hback]
  refine ⟨_, _, rfl, ?_, filterMap_content?_filter front, _, c, e, back', rfl, ?_, hcloser, he⟩
  · intro t ht
    have hkind : some t.kind = some .newline :=
      (Option.mem_map_of_mem Token.kind ht).symm.trans h.line
    rw [Option.some.inj hkind]
    exact List.mem_singleton_self _
  · refine (nestedIn_congr (fun _ hk => hk) ?_).2 hinner
    rw [List.filter_filter]
    exact List.filter_congr fun t _ => hbracket t.kind

/-- The stages after that for patterns do nothing to the token. -/
structure Token.IsInert (t : Token) : Prop where
  /-- It is no word that could be the name of a member. -/
  not_word : Stage.isLowerWord t.text = false
  /-- It is no reference to the value before a cascade. -/
  not_pipes : t.kind ≠ .pipes
  /-- It is no snippet to look at the lines of. -/
  not_embedded : t.kind ≠ .embedded

theorem Token.IsInert.passes_cascade (ht : t.IsInert) : Stage.cascade.Passes t := by
  intro s h next
  obtain ⟨-, hkind, -⟩ | hout := Stage.step_cascade_cases s t h next
  · exact absurd hkind ht.not_pipes
  · exact hout

theorem Token.IsInert.passes_memberName (ht : t.IsInert) : Stage.memberName.Passes t := by
  intro s h next
  obtain ⟨-, -, hword⟩ | hout := Stage.step_memberName_cases s t h next
  · rw [ht.not_word] at hword
    exact absurd hword Bool.false_ne_true
  · exact hout

/-- Tokens side by side that the later stages do not look for come through to the end. -/
theorem exists_tokenize_pair (hrich : .richString ∉ (lex source).map Token.kind)
    (hv : v.IsInert) (hg : g.IsInert) {before after : List Token}
    (hskeleton : skeleton source =
      Stage.memberName.apply (Stage.cascade.apply (before ++ v :: g :: after))) :
    ∃ before' after', tokenize source = before' ++ v :: g :: after' := by
  obtain ⟨before₁, after₁, hcascade⟩ :=
    hv.passes_cascade.exists_apply_pair_eq hg.passes_cascade before after
  obtain ⟨before₂, after₂, hmember⟩ :=
    hv.passes_memberName.exists_apply_pair_eq hg.passes_memberName before₁ after₁
  refine ⟨before₂.map Token.settled, after₂.map Token.settled, ?_⟩
  rw [tokenize_eq_of_no_richString hrich, hskeleton, hcascade, hmember,
    Stage.apply_embeddedSnippet, List.map_append, List.map_cons, List.map_cons,
    Token.settled_of_ne hv.not_embedded, Token.settled_of_ne hg.not_embedded]

/-- Brackets and the signs of assignments are no words. -/
theorem isInert_of_mem_lex (ht : t ∈ lex source)
    (hkind : t.kind ∈ [.openBracket, .openBrace, .equals]) : t.IsInert := by
  have hall : ∀ k ∈ [TokenKind.openBracket, .openBrace, .equals],
      k.isWord = false ∧ k ≠ .pipes ∧ k ≠ .embedded := by decide
  obtain ⟨hword, hpipes, hembedded⟩ := hall t.kind hkind
  refine ⟨Bool.eq_false_iff.2 fun hlower => ?_, hpipes, hembedded⟩
  rw [isWord_kind_of_mem_lex ht hlower] at hword
  exact Bool.true_eq_false.mp hword

/-- A pattern that begins a line is marked; or else the last token before it that is no layout
stands right before it, and that is an opening brace or bracket or the sign of an assignment. -/
theorem exists_tokenize_pattern (h : BeginsLine source front g rest) :
    ∃ before v after, tokenize source = before ++ v :: g :: after ∧
      (v = .mark .patternMark g.span.start ∨
        v.kind ∈ [.openBracket, .openBrace, .equals] ∧
          (front.filter fun t => t.kind ∉ [.blank, .comment, .newline]).getLast? = some v) := by
  have hparen : (openBrackets front).head? ≠ some .openParen :=
    fun hhead => h.no_paren (List.mem_of_head? hhead)
  obtain ⟨before, v, after, hout, hv⟩ := h.standsAfter
    |>.newlineElision h.opener hparen |>.indentation h.opener
    |>.starOperator h.opener (by decide) |>.functionLiteral h.opener |>.newlineCleanup h.opener
    |>.destructuring h.opener
  have hskeleton : skeleton source =
      Stage.memberName.apply (Stage.cascade.apply (before ++ v :: g :: after)) := by
    rw [← hout]
    rfl
  have hfront : ∀ t ∈ front, t ∈ lex source := fun t ht => by simp [h.lex_eq, ht]
  have hlast (hkind : v.kind ∈ [.openBracket, .openBrace, .equals])
      (hcontent : (front.filterMap Token.content?).getLast? = some v) :
      (front.filter fun t => t.kind ∉ [.blank, .comment, .newline]).getLast? = some v :=
    getLast?_filter_of_content? hfront (fun hmult => by simp [hmult] at hkind) hcontent
  have hinert : v.IsInert := by
    rcases hv with rfl | ⟨hkind, hcontent⟩
    · exact ⟨rfl, by simp [Token.mark], by simp [Token.mark]⟩
    · have hmem := List.mem_of_getLast? (hlast hkind hcontent)
      exact isInert_of_mem_lex (hfront v (List.mem_filter.1 hmem).1) hkind
  have hbracket : g.IsInert := by
    have hall : ∀ k ∈ [TokenKind.openBrace, .openBracket],
        k ∈ [TokenKind.openBracket, .openBrace, .equals] := by decide
    have hmem : g ∈ lex source := by simp [h.lex_eq]
    exact isInert_of_mem_lex hmem (hall g.kind h.opener)
  obtain ⟨before', after', htokens⟩ :=
    exists_tokenize_pair h.no_richString hinert hbracket hskeleton
  exact ⟨before', v, after', htokens, hv.imp_right fun h => ⟨h.1, hlast h.1 h.2⟩⟩

/-- Whether a bracket begins a line can be told by the kinds of the lexemes. -/
theorem exists_beginsLine {before inner after : List TokenKind} {o k : TokenKind}
    (hkinds : (lex source).map Token.kind = before ++ o :: (inner ++ k :: after))
    (hrich : .richString ∉ before ++ o :: (inner ++ k :: after))
    (hline : (before.filter fun l => !l.isTrivia).getLast? = some .newline)
    (hparen : .openParen ∉ before.foldl openAfter [])
    (ho : o ∈ [.openBrace, .openBracket]) (hk : k.partner? = some o)
    (hinner : NestedIn brackets inner)
    (hassign : ∃ a ∈ (after.filter fun l => !l.isTrivia).head?, a ∈ [.equals, .define]) :
    ∃ front g rest, BeginsLine source front g rest := by
  obtain ⟨front, behind, hlex, rfl, hbehind⟩ := List.map_eq_append_iff.1 hkinds
  obtain ⟨g, rest, rfl, rfl, hrest⟩ := List.map_eq_cons_iff.1 hbehind
  obtain ⟨within, closing, rfl, rfl, hclosing⟩ := List.map_eq_append_iff.1 hrest
  obtain ⟨c, back, rfl, rfl, rfl⟩ := List.map_eq_cons_iff.1 hclosing
  refine ⟨front, g, within ++ c :: back, ?_⟩
  rw [List.filter_map, List.getLast?_map] at hline
  rw [List.filter_map, List.head?_map] at hassign
  obtain ⟨a, ha, hmem⟩ := hassign
  obtain ⟨e, he, rfl⟩ := Option.map_eq_some_iff.1 ha
  exact
    { no_richString := hkinds ▸ hrich
      lex_eq := hlex
      line := hline
      no_paren := hparen
      opener := ho
      assigned := ⟨within, c, back, rfl, hk, hinner, e, he, hmem⟩ }

/-- A line after the end of a block, whose last line ends with the sign of an assignment. -/
theorem exists_tokenize_pattern_after_block :
    ∃ front g rest, BeginsLine "do\n a =\n[ b ] = c" front g rest ∧
      ∃ before v after, tokenize "do\n a =\n[ b ] = c" = before ++ v :: g :: after ∧
        (v = .mark .patternMark g.span.start ∨
          v.kind ∈ [.openBracket, .openBrace, .equals] ∧
            (front.filter fun t => t.kind ∉ [.blank, .comment, .newline]).getLast? = some v) := by
  have hkinds : (lex "do\n a =\n[ b ] = c").map Token.kind =
      ([.doWord, .newline, .identifier, .blank, .equals, .newline] : List TokenKind) ++
        TokenKind.openBracket :: (([.blank, .identifier, .blank] : List TokenKind) ++
          TokenKind.closeBracket :: [.blank, .equals, .blank, .identifier]) := by
    decide +kernel
  obtain ⟨front, g, rest, hline⟩ := exists_beginsLine hkinds (by decide) (by decide) (by decide)
    (by decide) rfl (by decide) (by decide)
  exact ⟨front, g, rest, hline, exists_tokenize_pattern hline⟩

/-- At the start of a group in braces, where the newline after the brace has been dropped, a pattern
is not marked, although it begins a line. -/
theorem not_mem_tokenize_patternMark :
    (∃ front g rest, BeginsLine "\x7b\n[ a ] = b\n\x7d" front g rest) ∧
      .patternMark ∉ (tokenize "\x7b\n[ a ] = b\n\x7d").map Token.kind := by
  have hkinds : (lex "\x7b\n[ a ] = b\n\x7d").map Token.kind =
      ([.openBrace, .newline] : List TokenKind) ++
        TokenKind.openBracket :: (([.blank, .identifier, .blank] : List TokenKind) ++
          TokenKind.closeBracket :: [.blank, .equals, .blank, .identifier, .newline,
            .closeBrace]) := by
    decide +kernel
  have htokens : (tokenize "\x7b\n[ a ] = b\n\x7d").map Token.kind =
      [.openBrace, .openBracket, .identifier, .closeBracket, .equals, .identifier,
        .closeBrace] := by
    decide +kernel
  rw [htokens]
  refine ⟨exists_beginsLine hkinds ?_ ?_ ?_ ?_ rfl ?_ ?_, ?_⟩
  all_goals decide

end ScriptReader
