import ScriptReader.Pipeline
import ScriptReader.Proofs.Token.Sites

/-!
# What a stage makes of a token

Each stage lets most tokens by, and does one or two other things with some.  What these are is said
here once for each stage that withholds nothing, with the conditions under which it does them.

## Main Statements

* `Stage.trackBracket_eq` — what the stage for newlines takes to be open is open
* `Stage.step_newlineElision_cases`, `Stage.step_newlineCleanup_cases` — newlines are dropped where
  they are needless
* `Stage.step_indentation_cases` — marks are put before newlines and closing braces
* `Stage.step_starOperator_cases`, `Stage.step_cascade_cases`, `Stage.step_memberName_cases`,
  `Stage.step_embeddedSnippet_cases` — tokens get another kind

## Design Notes

What is let out comes first in each case, so that the cases can be told apart by it.
-/

namespace ScriptReader.Stage

/-! ## Stages that drop tokens -/

theorem step_trivia_cases (s : Unit) (t : Token) (h : History) (next : Option TokenKind) :
    (((trivia.step s t h).given next).2 = [] ∧ t.kind.isTrivia) ∨
      ((trivia.step s t h).given next).2 = [t] := by
  by_cases htrivia : t.kind.isTrivia
  · exact .inl ⟨if_pos htrivia, htrivia⟩
  · exact .inr (if_neg htrivia)

/-- What is open is found by looking for what a closing bracket would close. -/
theorem trackBracket_eq (opened : List TokenKind) (k : TokenKind) :
    trackBracket opened k = openAfter opened k := by
  cases k <;> simp [trackBracket, openAfter, TokenKind.isOpener, TokenKind.opener?, brackets]

theorem step_newlineElision_cases (opened : List TokenKind) (t : Token) (h : History)
    (next : Option TokenKind) :
    ((newlineElision.step opened t h).given next).1 = openAfter opened t.kind ∧
      ((((newlineElision.step opened t h).given next).2 = [] ∧ t.kind = .newline) ∨
        (((newlineElision.step opened t h).given next).2 = [t] ∧
          (t.kind = .newline → opened.head? ≠ some .openParen ∧
            isNeedless [.openBracket, .openBrace, .comma]
              [.newline, .closeBracket, .closeBrace, .comma, .pipes]
              (h.lookBack 1) next = false))) := by
  simp only [newlineElision, trackBracket_eq]
  by_cases hkind : t.kind = .newline
  · have htrack : openAfter opened t.kind = opened := by
      rw [hkind]
      exact openAfter_of_not_isBracket rfl
    rw [if_pos hkind, htrack]
    simp only [Ruling.given]
    split
    case isTrue => exact ⟨rfl, .inl ⟨rfl, hkind⟩⟩
    case isFalse hkept =>
      rw [not_or, Bool.not_eq_true] at hkept
      exact ⟨rfl, .inr ⟨rfl, fun _ => ⟨hkept.2, hkept.1⟩⟩⟩
  · rw [if_neg hkind]
    exact ⟨rfl, .inr ⟨rfl, fun hnewline => absurd hnewline hkind⟩⟩

theorem step_newlineCleanup_cases (s : Unit) (t : Token) (h : History)
    (next : Option TokenKind) :
    (((newlineCleanup.step s t h).given next).2 = [] ∧ t.kind = .newline) ∨
      (((newlineCleanup.step s t h).given next).2 = [t] ∧
        (t.kind = .newline → isNeedless [.indent, .equals]
          [.elseWord, .catchWord, .finallyWord, .dedent] (h.lookBack 1) next = false)) := by
  simp only [newlineCleanup]
  by_cases hkind : t.kind = .newline
  · rw [if_pos hkind]
    simp only [Ruling.given]
    split
    case isTrue => exact .inl ⟨rfl, hkind⟩
    case isFalse hkept => exact .inr ⟨rfl, fun _ => Bool.not_eq_true _ ▸ hkept⟩
  · rw [if_neg hkind]
    exact .inr ⟨rfl, fun hnewline => absurd hnewline hkind⟩

/-- What becomes of a newline. -/
theorem step_newlineElision_newline {t : Token} (opened : List TokenKind) (h : History)
    (next : Option TokenKind) (ht : t.kind = .newline) :
    ((newlineElision.step opened t h).given next).2 =
      if isNeedless [.openBracket, .openBrace, .comma]
          [.newline, .closeBracket, .closeBrace, .comma, .pipes] (h.lookBack 1) next ∨
        opened.head? = some .openParen then [] else [t] := by
  have htrack : trackBracket opened t.kind = opened := by
    rw [ht]
    rfl
  simp only [newlineElision]
  rw [if_pos ht, htrack]
  simp only [Ruling.given]
  split <;> rfl

theorem step_newlineCleanup_newline {t : Token} (s : Unit) (h : History) (next : Option TokenKind)
    (ht : t.kind = .newline) :
    ((newlineCleanup.step s t h).given next).2 =
      if isNeedless [.indent, .equals] [.elseWord, .catchWord, .finallyWord, .dedent]
          (h.lookBack 1) next then [] else [t] := by
  simp only [newlineCleanup]
  rw [if_pos ht]
  simp only [Ruling.given]
  split <;> rfl

/-! ## The stage that marks blocks -/

theorem eq_mark_of_mem_dedents {a : Offset} {closed : List Enclosure} {u : Token}
    (h : u ∈ dedents a closed) : u = .mark .dedent a := by
  obtain ⟨-, -, rfl⟩ := List.mem_map.1 h
  rfl

/-- A newline may start a block, and a newline or a closing brace may end some. -/
theorem step_indentation_cases (around : List Enclosure) (t : Token) (h : History)
    (next : Option TokenKind) :
    (((indentation.step around t h).given next).2 = [.mark .indent t.span.start, t] ∧
      t.kind = .newline) ∨
    ∃ closed, ((indentation.step around t h).given next).2 = dedents t.span.start closed ++ [t] ∧
      (closed ≠ [] → t.kind = .newline ∨ t.kind = .closeBrace) := by
  simp only [indentation]
  split
  case h_1 => exact .inr ⟨[], rfl, by simp⟩
  case h_2 hkind =>
    split
    case isTrue => exact .inr ⟨_, rfl, fun _ => .inr hkind⟩
    case isFalse => exact .inr ⟨[], rfl, by simp⟩
  case h_3 hkind =>
    split
    case isTrue => exact .inl ⟨rfl, hkind⟩
    case isFalse => exact .inr ⟨_, rfl, fun _ => .inl hkind⟩
  case h_4 => exact .inr ⟨[], rfl, by simp⟩

/-- A token is let out behind marks, of which there are none unless it is a newline or a closing
brace. -/
theorem exists_step_indentation (around : List Enclosure) (t : Token) (h : History)
    (next : Option TokenKind) :
    ∃ marks, ((indentation.step around t h).given next).2 = marks ++ [t] ∧
      (∀ u ∈ marks, u = .mark .indent t.span.start ∨ u = .mark .dedent t.span.start) ∧
      (marks ≠ [] → t.kind = .newline ∨ t.kind = .closeBrace) := by
  rcases step_indentation_cases around t h next with ⟨hout, hkind⟩ | ⟨closed, hout, hkind⟩
  · exact ⟨[.mark .indent t.span.start], hout, by simp, fun _ => .inl hkind⟩
  · refine ⟨_, hout, fun u hu => .inr (eq_mark_of_mem_dedents hu), ?_⟩
    intro hmarks
    refine hkind ?_
    rintro rfl
    exact hmarks rfl

/-! ## Stages that rename tokens -/

theorem step_starOperator_cases (s : Unit) (t : Token) (h : History) (next : Option TokenKind) :
    (((starOperator.step s t h).given next).2 = [t.withKind .star] ∧ t.kind = .multiplicative) ∨
      ((starOperator.step s t h).given next).2 = [t] := by
  simp only [starOperator]
  split
  case isTrue htext =>
    simp only [Ruling.given]
    split
    case isTrue => exact .inl ⟨rfl, htext.1⟩
    case isFalse => exact .inr rfl
  case isFalse => exact .inr rfl

theorem step_cascade_cases (s : Unit) (t : Token) (h : History) (next : Option TokenKind) :
    (((cascade.step s t h).given next).2 =
        [t.withKind .cascadeRef, .mark .receiverMark t.span.stop] ∧
        t.kind = .pipes ∧ next = some .dot) ∨
      ((cascade.step s t h).given next).2 = [t] := by
  simp only [cascade]
  split
  case isTrue hkind =>
    simp only [Ruling.given]
    split
    case isTrue hdot => exact .inl ⟨rfl, hkind, hdot⟩
    case isFalse => exact .inr rfl
  case isFalse => exact .inr rfl

theorem step_memberName_cases (s : Unit) (t : Token) (h : History) (next : Option TokenKind) :
    (((memberName.step s t h).given next).2 = [t.withKind .identifier] ∧
        h.lookBack 1 = some .dot ∧ isLowerWord t.text) ∨
      ((memberName.step s t h).given next).2 = [t] := by
  simp only [memberName, Ruling.given]
  split
  case isTrue hword => exact .inl ⟨rfl, hword⟩
  case isFalse => exact .inr rfl

theorem step_embeddedSnippet_cases (s : Unit) (t : Token) (h : History)
    (next : Option TokenKind) :
    (t.kind = .embedded ∧ ∃ k ∈ [TokenKind.embeddedLine, .embeddedBlock],
        ((embeddedSnippet.step s t h).given next).2 = [t.withKind k]) ∨
      ((embeddedSnippet.step s t h).given next).2 = [t] := by
  simp only [embeddedSnippet, Ruling.given]
  split
  case isTrue hkind =>
    refine .inl ⟨hkind, _, ?_, rfl⟩
    split <;> simp
  case isFalse => exact .inr rfl

end ScriptReader.Stage
