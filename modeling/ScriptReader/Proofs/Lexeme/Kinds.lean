import ScriptReader.Proofs.Lexeme.Tiling
import ScriptReader.Stage.Words

/-!
# What kinds of tokens a source has

The lexer makes none of the kinds that are left to the pipeline, and what reads as a word of
lower-case letters has a kind whose name is such a word.

## Main Statements

* `exists_of_mem_lex` — a token of a source is the lexeme at some place in it
* `isPiece_text_of_mem_lex` — its text is a piece of the source
* `index_kind_le_of_mem_lex` — the kinds of lexemes are those up to the last that words spell
* `name_kind_of_mem_lex` — a lower-case word is an identifier or spells the name of its kind
* `isWord_kind_of_mem_lex` — its kind is one that lower-case words have
-/

namespace ScriptReader

/-- Whether a kind is one that words of lower-case letters may have. -/
def TokenKind.isWord (k : TokenKind) : Bool := k.isSpelled && Stage.isLowerWord k.name

variable {source : String} {t : Token} {k : TokenKind}

/-! ## Where lexemes stand -/

/-- A token of a text is the lexeme at some place in it, and its span is that place. -/
theorem exists_of_mem_lexFrom {start : Nat} {cs : List Char} (h : t ∈ lexFrom start cs) :
    ∃ before c rest, cs = before ++ c :: rest ∧ t.kind = (Lexeme.next c rest).kind ∧
      t.text = String.ofList (Lexeme.next c rest).text ∧ t.location = none ∧
      t.span = .ofBytes (start + Text.byteCount before)
        (start + Text.byteCount before + t.text.utf8ByteSize) := by
  fun_induction lexFrom start cs with
  | case1 => simp at h
  | case2 start c cs first stop ih =>
    rcases List.mem_cons.1 h with rfl | hlater
    · refine ⟨[], c, cs, rfl, rfl, rfl, rfl, ?_⟩
      rw [Text.utf8ByteSize_ofList]
      rfl
    · obtain ⟨before, d, rest, hcs, hkind, htext, hlocation, hspan⟩ := ih hlater
      refine ⟨first.text ++ before, d, rest, ?_, hkind, htext, hlocation, ?_⟩
      · rw [List.append_assoc, ← hcs, Lexeme.text_append_drop_next]
      · rw [hspan, Text.byteCount_append, ← Nat.add_assoc]

/-- A token of a source is the lexeme at some place in it. -/
theorem exists_of_mem_lex (h : t ∈ lex source) :
    ∃ before c rest, source.toList = before ++ c :: rest ∧ t.kind = (Lexeme.next c rest).kind ∧
      t.text = String.ofList (Lexeme.next c rest).text ∧ t.location = none := by
  obtain ⟨before, c, rest, hsource, hkind, htext, hlocation, -⟩ := exists_of_mem_lexFrom h
  exact ⟨before, c, rest, hsource, hkind, htext, hlocation⟩

/-- The text of a token is a piece of the source. -/
theorem isPiece_text_of_mem_lex (h : t ∈ lex source) :
    ∃ start stop, Text.IsPiece source.toList start stop t.text.toList := by
  obtain ⟨before, c, rest, hsource, -, htext, -⟩ := exists_of_mem_lex h
  refine ⟨_, _, before, (c :: rest).drop (Lexeme.next c rest).text.length, ?_, rfl, rfl⟩
  rw [hsource, htext, String.toList_ofList, Lexeme.text_append_drop_next]

/-- The text of a token is no longer than the source. -/
theorem utf8ByteSize_text_le_of_mem_lex (h : t ∈ lex source) :
    t.text.utf8ByteSize ≤ source.utf8ByteSize := by
  obtain ⟨start, stop, hpiece⟩ := isPiece_text_of_mem_lex h
  have hstop := hpiece.stop_eq
  have hle := hpiece.stop_le
  rw [Text.byteCount_toList] at hstop hle
  omega

/-! ## The kinds of words -/

namespace Lexeme

theorem isSpelled_of_ofOperator? {word : String} (h : ofOperator? word = some k) :
    k.isSpelled := by
  unfold ofOperator? at h
  split at h <;> first
    | (rw [Option.some_inj] at h; rw [← h]; decide)
    | simp at h

theorem isLowerWord_eq_false_of_ofOperator? {word : String} (h : ofOperator? word = some k) :
    Stage.isLowerWord word = false := by
  unfold ofOperator? at h
  split at h <;> first
    | decide
    | simp at h

/-- A word is an operator, pipes, a number, the name of a kind that words spell, or an
identifier. -/
theorem ofWord_cases (word : List Char) :
    ofOperator? (String.ofList word) = some (ofWord word) ∨
    (word.all (· = '|') ∧ ofWord word = .pipes) ∨
    (word.head?.any Char.isDigit ∧ ofWord word = .number) ∨
    ((ofWord word).name = String.ofList word ∧ (ofWord word).isSpelled) ∨
    ofWord word = .identifier := by
  unfold ofWord
  cases hoperator : ofOperator? (String.ofList word) with
  | some k => exact .inl rfl
  | none =>
    rw [Option.getD_none]
    split
    case isTrue hpipes => exact .inr (.inl ⟨hpipes, rfl⟩)
    case isFalse =>
      split
      case isTrue hdigit => exact .inr (.inr (.inl ⟨hdigit, rfl⟩))
      case isFalse =>
        cases hname : (TokenKind.ofName? (String.ofList word)).filter TokenKind.isSpelled with
        | none => exact .inr (.inr (.inr (.inr rfl)))
        | some k =>
          obtain ⟨hfound, hspelled⟩ := Option.filter_eq_some_iff.1 hname
          have hk := List.find?_some hfound
          exact .inr (.inr (.inr (.inl ⟨by simpa using hk, hspelled⟩)))

/-- The kind of a word is one that words spell. -/
theorem isSpelled_ofWord (word : List Char) : (ofWord word).isSpelled := by
  rcases ofWord_cases word with hoperator | ⟨-, hkind⟩ | ⟨-, hkind⟩ | ⟨-, hspelled⟩ | hkind
  · exact isSpelled_of_ofOperator? hoperator
  · rw [hkind]
    decide
  · rw [hkind]
    decide
  · exact hspelled
  · rw [hkind]
    decide

theorem index_ofWord_le (word : List Char) : (ofWord word).index ≤ TokenKind.bang.index :=
  of_decide_eq_true (Bool.and_eq_true_iff.1 (isSpelled_ofWord word)).2

theorem index_lt_ofWord (word : List Char) : TokenKind.newline.index < (ofWord word).index :=
  of_decide_eq_true (Bool.and_eq_true_iff.1 (isSpelled_ofWord word)).1

theorem index_kind_next_le (c : Char) (cs : List Char) :
    (next c cs).kind.index ≤ TokenKind.bang.index := by
  unfold next
  repeat' split
  all_goals
    first
    | exact index_ofWord_le _
    | exact Nat.le_of_ble_eq_true rfl

/-- A lower-case word is an identifier or has the kind of that name. -/
theorem name_ofWord_of_isLowerWord {c : Char} {cs : List Char}
    (h : Stage.isLowerWord (String.ofList (c :: cs))) :
    ofWord (c :: cs) = .identifier ∨
      ((ofWord (c :: cs)).name = String.ofList (c :: cs) ∧ (ofWord (c :: cs)).isSpelled) := by
  have hc : c.isLower := by
    have hlower : ∀ d ∈ c :: cs, d.isLower := by simpa [Stage.isLowerWord] using h
    exact hlower c (by simp)
  rcases ofWord_cases (c :: cs) with hoperator | ⟨hbars, -⟩ | ⟨hdigit, -⟩ | hname | hkind
  · rw [isLowerWord_eq_false_of_ofOperator? hoperator] at h
    simp at h
  · obtain rfl : c = '|' := of_decide_eq_true (List.all_eq_true.1 hbars c List.mem_cons_self)
    exact absurd hc (by decide)
  · have hletter : 'a'.val ≤ c.val := of_decide_eq_true (Bool.and_eq_true_iff.1 hc).1
    have hnumeral : c.val ≤ '9'.val := of_decide_eq_true (Bool.and_eq_true_iff.1 hdigit).2
    exact absurd (UInt32.le_trans hletter hnumeral) (by decide)
  · exact .inr hname
  · exact .inl hkind

/-- What is lower-case letters is read as a word. -/
theorem kind_next_of_isLowerWord {c : Char} {cs : List Char}
    (h : Stage.isLowerWord (String.ofList (next c cs).text)) :
    (next c cs).kind = ofWord (next c cs).text := by
  have hc : c.isLower := by
    obtain ⟨tail, htext⟩ := exists_text_next c cs
    have hlower : ∀ d ∈ c :: tail, d.isLower := by simpa [Stage.isLowerWord, htext] using h
    exact hlower c (by simp)
  have hne (d : Char) (hd : d.isLower = false) : c ≠ d := by
    rintro rfl
    rw [hc] at hd
    simp at hd
  have hblank : ¬ isBlank c := by simp [isBlank, hne ' ' (by decide), hne '\t' (by decide)]
  have hbreak : ¬ isBreak c := by simp [isBreak, hne '\r' (by decide), hne '\n' (by decide)]
  unfold next
  rw [if_neg hblank, if_neg hbreak, if_neg (hne '#' (by decide)), if_neg (hne '"' (by decide)),
    if_neg (hne '\'' (by decide)), if_neg (hne '`' (by decide))]

end Lexeme

/-! ## The kinds of tokens -/

theorem location_of_mem_lex (h : t ∈ lex source) : t.location = none := by
  obtain ⟨-, -, -, -, -, -, hlocation⟩ := exists_of_mem_lex h
  exact hlocation

/-- The kinds of lexemes are those up to the last that words spell. -/
theorem index_kind_le_of_mem_lex (h : t ∈ lex source) : t.kind.index ≤ TokenKind.bang.index := by
  obtain ⟨before, c, rest, -, hkind, -, -⟩ := exists_of_mem_lex h
  rw [hkind]
  exact Lexeme.index_kind_next_le c rest

/-- A lower-case word is an identifier or spells the name of its kind, which is one that words
spell. -/
theorem name_kind_of_mem_lex (h : t ∈ lex source) (hword : Stage.isLowerWord t.text) :
    t.kind = .identifier ∨ (t.kind.name = t.text ∧ t.kind.isSpelled) := by
  obtain ⟨before, c, rest, -, hkind, htext, -⟩ := exists_of_mem_lex h
  obtain ⟨tail, hfirst⟩ := Lexeme.exists_text_next c rest
  rw [htext] at hword
  rw [hkind, htext, Lexeme.kind_next_of_isLowerWord hword]
  rw [hfirst] at hword ⊢
  exact Lexeme.name_ofWord_of_isLowerWord hword

/-- A token whose text is a lower-case word has a kind that such words have. -/
theorem isWord_kind_of_mem_lex (h : t ∈ lex source) (hword : Stage.isLowerWord t.text) :
    t.kind.isWord := by
  unfold TokenKind.isWord
  rcases name_kind_of_mem_lex h hword with hidentifier | ⟨hname, hspelled⟩
  · rw [hidentifier]
    decide
  · rw [hspelled, hname, hword]
    rfl

end ScriptReader
