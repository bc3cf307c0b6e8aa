import Mathlib.Data.List.Chain
import Mathlib.Data.List.TakeWhile
import ScriptReader.Proofs.Lexeme.Scan
import ScriptReader.Proofs.Reading.Coverage
import ScriptReader.Proofs.Lexeme.Kinds

/-!
# Lexemes stand on their own

A lexeme ends where something comes that is not part of it, or where the source does.  To the lexer
this is the same: the text of a lexeme, read on its own, is that lexeme again.

## Main Definitions

* `IsLexed` — tokens are the lexemes of a source

## Main Statements

* `Lexeme.next_of_text_next` — a lexeme is found again in its own text
* `isChain_lexFrom` — blanks that follow a line break are part of it
* `lex_text_of_mem_lex` — the text of a token is read as that token
* `isLexed_lex` — the tokens of a source are its lexemes, with nothing between them
-/

namespace ScriptReader

variable {source : String} {t : Token} {c : Char} {cs : List Char}

namespace Lexeme

/-! ## Lexemes are found again -/

theorem quoted_quoted (quote : Char) (escaped : Bool) (cs : List Char) :
    quoted quote escaped (quoted quote escaped cs) = quoted quote escaped cs := by
  fun_induction quoted quote escaped cs with
  | case1 => rfl
  | case2 escaped c cs hquote => rw [quoted, if_pos hquote]
  | case3 escaped c cs hquote ih => rw [quoted, if_neg hquote, ih]

theorem richQuoted_richQuoted (escaped : Bool) (cs : List Char) :
    richQuoted escaped (richQuoted escaped cs) = richQuoted escaped cs := by
  fun_induction richQuoted escaped cs with
  | case1 => rw [richQuoted]
  | case2 escaped c cs hbrace size ih =>
    -- Nothing comes after code that is not closed, and other code is the same whatever comes.
    have hnothing : cs.drop (Rich.body cs).length = [] → richQuoted false (cs.drop size) = [] := by
      intro hdrop
      rw [← List.drop_drop, hdrop, List.drop_nil, richQuoted]
    obtain ⟨hbody, htake, hdrop⟩ := Rich.body_take_append hnothing
    rw [richQuoted, if_pos hbrace]
    dsimp only
    rw [hbody, htake, hdrop, ih]
  | case3 escaped c cs hbrace hquote => rw [richQuoted, if_neg hbrace, if_pos hquote]
  | case4 escaped c cs hbrace hquote ih => rw [richQuoted, if_neg hbrace, if_neg hquote, ih]

/-- **A lexeme is found again in its own text.** -/
theorem next_of_text_next {tail : List Char} (htext : (next c cs).text = c :: tail) :
    next c tail = next c cs := by
  revert htext
  fun_cases next c cs with
  | case1 hblank =>
    intro htext
    rw [next, if_pos hblank, ← htext, List.takeWhile_idem]
  | case2 hblank hbreak =>
    intro htext
    rw [next, if_neg hblank, if_pos hbreak, ← htext, List.takeWhile_idem]
  | case3 hblank hbreak hcomment =>
    intro htext
    rw [next, if_neg hblank, if_neg hbreak, if_pos hcomment, ← htext, List.takeWhile_idem]
  | case4 hblank hbreak hcomment hrich =>
    intro htext
    obtain rfl := (List.cons.inj htext).2
    rw [next, if_neg hblank, if_neg hbreak, if_neg hcomment, if_pos hrich, richQuoted_richQuoted]
  | case5 hblank hbreak hcomment hrich hsimple =>
    intro htext
    obtain rfl := (List.cons.inj htext).2
    rw [next, if_neg hblank, if_neg hbreak, if_neg hcomment, if_neg hrich, if_pos hsimple,
      quoted_quoted]
  | case6 hblank hbreak hcomment hrich hsimple hsnippet =>
    intro htext
    obtain rfl := (List.cons.inj htext).2
    rw [next, if_neg hblank, if_neg hbreak, if_neg hcomment, if_neg hrich, if_neg hsimple,
      if_pos hsnippet, quoted_quoted]
  | case7 hblank hbreak hcomment hrich hsimple hsnippet word =>
    intro htext
    rw [next, if_neg hblank, if_neg hbreak, if_neg hcomment, if_neg hrich, if_neg hsimple,
      if_neg hsnippet, ← htext]
    simp only [word, List.takeWhile_idem]

/-! ## What follows a line break -/

/-- No word is a blank, a comment or a line break. -/
theorem ofWord_ne {k : TokenKind} (hk : k.index ≤ TokenKind.newline.index) (word : List Char) :
    ofWord word ≠ k := by
  rintro rfl
  exact absurd (index_lt_ofWord word) (Nat.not_lt.2 hk)

/-- A blank or a line break begins with a character that ends words. -/
theorem isSpace_of_kind_next (h : (next c cs).kind = .blank ∨ (next c cs).kind = .newline) :
    isSpace c := by
  revert h
  fun_cases next c cs with
  | case1 hblank => simp [isSpace, hblank]
  | case2 hblank hbreak => simp [isSpace, hbreak]
  | case7 hblank hbreak hcomment hrich hsimple hsnippet word =>
    rintro (hkind | hkind)
    · exact absurd hkind (ofWord_ne (by decide) word)
    · exact absurd hkind (ofWord_ne (by decide) word)
  | _ => simp

/-- A line break takes in all such characters that follow it. -/
theorem text_next_of_newline (h : (next c cs).kind = .newline) :
    (next c cs).text = (c :: cs).takeWhile isSpace := by
  revert h
  fun_cases next c cs with
  | case2 => exact fun _ => rfl
  | case7 hblank hbreak hcomment hrich hsimple hsnippet word =>
    exact fun hkind => absurd hkind (ofWord_ne (by decide) word)
  | _ => simp

/-- What follows a line break is neither a blank nor a line break. -/
theorem kind_next_of_newline {d : Char} {ds : List Char} (h : (next c cs).kind = .newline)
    (hrest : (c :: cs).drop (next c cs).text.length = d :: ds) :
    (next d ds).kind ≠ .blank ∧ (next d ds).kind ≠ .newline := by
  have hcs := text_append_drop_next c cs
  rw [hrest, text_next_of_newline h] at hcs
  have hdrop : (c :: cs).dropWhile isSpace = d :: ds :=
    List.append_cancel_left (List.takeWhile_append_dropWhile.trans hcs.symm)
  have hword := List.head?_dropWhile_not isSpace (c :: cs)
  rw [hdrop] at hword
  rw [← not_or]
  intro hkind
  simp [isSpace_of_kind_next hkind] at hword

end Lexeme

/-! ## Lexing -/

/-- What follows a line break in a source is neither a blank nor a line break. -/
theorem isChain_lexFrom (start : Nat) (cs : List Char) :
    (lexFrom start cs).IsChain fun t u =>
      t.kind = .newline → u.kind ≠ .blank ∧ u.kind ≠ .newline := by
  fun_induction lexFrom start cs with
  | case1 => exact .nil
  | case2 start c cs first stop ih =>
    refine List.isChain_cons.2 ⟨?_, ih⟩
    intro u hu hkind
    cases hrest : (c :: cs).drop first.text.length with
    | nil =>
      rw [hrest, lexFrom] at hu
      cases hu
    | cons d ds =>
      rw [hrest, lexFrom] at hu
      obtain rfl := Option.some.inj hu
      exact Lexeme.kind_next_of_newline hkind hrest

/-- The text of a token, read on its own, is that token. -/
theorem lex_text_of_mem_lex (h : t ∈ lex source) :
    lex t.text = [{ t with span := .ofBytes 0 t.text.utf8ByteSize }] := by
  obtain ⟨before, c, rest, -, hkind, htext, hlocation⟩ := exists_of_mem_lex h
  obtain ⟨kind, text, span, location⟩ := t
  dsimp only at hkind htext hlocation ⊢
  subst hkind htext hlocation
  obtain ⟨tail, htext⟩ := Lexeme.exists_text_next c rest
  rw [lex, String.toList_ofList, htext, lexFrom]
  rw [Lexeme.next_of_text_next htext, ← htext, List.drop_length, lexFrom,
    Text.utf8ByteSize_ofList, Nat.zero_add]

/-- No span is left out between tokens that account for every byte. -/
theorem Tiles.starts_append_eq {good : Token → Prop} {a b : Nat} {ts : List Token}
    (h : Tiles (fun _ => False) good a b ts) :
    ts.map (·.span.start.toNat) ++ [b] = a :: ts.map (·.span.stop.toNat) := by
  have heq {a b : Nat} (skip : Skips (fun _ => False) a b) : b = a :=
    Nat.le_antisymm (Nat.not_lt.1 fun hlt => skip.spared a (Nat.le_refl a) hlt) skip.le
  induction h with
  | nil skip => rw [heq skip]; rfl
  | cons skip ordered holds rest ih => rw [List.map_cons, List.cons_append, ih, heq skip]; rfl

/-- The tokens are the lexemes of a source, one after another. -/
structure IsLexed (source : String) (ts : List Token) : Prop where
  /-- Tokens begin and end between characters of the source, and have the text in between. -/
  texts : ∀ t ∈ ts, t.IsTextOf source
  /-- There is such text. -/
  nonempty : ∀ t ∈ ts, t.span.start < t.span.stop ∧ t.text ≠ ""
  /-- Tokens begin where the source does and where others end, and end where others begin and where
  the source does. -/
  contiguous :
    ts.map (·.span.start.toNat) ++ [source.utf8ByteSize] = 0 :: ts.map (·.span.stop.toNat)
  /-- Their kinds are none that only the pipeline makes. -/
  kinds : ∀ t ∈ ts, t.kind.index ≤ TokenKind.bang.index
  /-- What follows a line break is neither a blank nor a line break. -/
  newlines : ts.IsChain fun t u => t.kind = .newline → u.kind ≠ .blank ∧ u.kind ≠ .newline
  /-- The text of each token, read on its own, is that token. -/
  alone : ∀ t ∈ ts, lex t.text = [{ t with span := .ofBytes 0 t.text.utf8ByteSize }]

/-- **The tokens of a source are its lexemes**, with nothing between them. -/
theorem isLexed_lex (htop : source.utf8ByteSize ≤ Offset.top) : IsLexed source (lex source) := by
  have htiles := tiles_lex htop
  refine ⟨?_, ?_, htiles.starts_append_eq, ?_, isChain_lexFrom 0 source.toList, ?_⟩
  · intro t ht
    exact (htiles.good_of_mem t ht).isTextOf
  · intro t ht
    obtain ⟨before, c, rest, -, -, htext, -⟩ := exists_of_mem_lex ht
    have hstop := (htiles.good_of_mem t ht).stop_eq
    have hpos := c.utf8Size_pos
    obtain ⟨tail, hnonempty⟩ := Lexeme.exists_text_next c rest
    rw [htext, String.toList_ofList, hnonempty, Text.byteCount_cons] at hstop
    refine ⟨UInt32.lt_iff_toNat_lt.2 (by omega), ?_⟩
    rw [htext, ← String.toList_inj.ne, hnonempty]
    simp
  · intro t ht
    exact index_kind_le_of_mem_lex ht
  · intro t ht
    exact lex_text_of_mem_lex ht

/-- A source with a quoted brace in code, an escaped quote, a line break with blanks after it and a
comment with a character of two bytes, which is the last one. -/
theorem isLexed_lex_escaped :
    let source := "x \"\x7b'\x7d'\x7d \\\"\"\n\t# é"
    source.utf8ByteSize ≤ Offset.top ∧
      (lex source).map (·.kind) = [.identifier, .blank, .richString, .newline, .comment] ∧
      IsLexed source (lex source) := by
  intro source
  have htop : source.utf8ByteSize ≤ Offset.top := by decide
  exact ⟨htop, by decide +kernel, isLexed_lex htop⟩

end ScriptReader
