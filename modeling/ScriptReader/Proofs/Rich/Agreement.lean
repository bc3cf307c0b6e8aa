import ScriptReader.Proofs.Rich.Endings
import ScriptReader.Proofs.Rich.Expansion

/-!
# The lexer and the expansion of rich strings agree

The lexer finds the end of a rich string in the source, and the expansion takes the string apart
without looking at the source again.  Both scan it on their own.  They come to the same result: the
expansion finds a closing quote where the lexer stopped, nothing after it, and as code just what the
lexer passed over.

## Main Definitions

* `Rich.Agrees` — a rich string is taken apart as the lexer has gone through it

## Main Statements

* `Rich.exists_agrees_of_mem_lex` — every rich string of a source is
-/

namespace ScriptReader.Rich

variable {source : String} {t : Token} {skip : Nat}

/-- The rich string `t` follows `before` in a source, its opening quote being followed by `rest`,
and is taken apart as the lexer has gone through it.  What stands inside its quotes has the pieces
`inner`. -/
structure Agrees (source : String) (t : Token) (before rest : List Char) (inner : List Segment) :
    Prop where
  /-- The source goes on after the opening quote. -/
  place : source.toList = before ++ '"' :: rest
  /-- The lexer takes this for a rich string. -/
  kind : t.kind = .richString
  /-- The string is found at this place, ... -/
  span : t.span = .ofBytes (Text.byteCount before)
    (Text.byteCount before + t.text.utf8ByteSize)
  /-- ... and is what the lexer has taken. -/
  taken : t.text.toList = '"' :: (Lexeme.scan 1 false rest).taken
  /-- Unless it stops at a quote, the lexer stops where the source ends. -/
  unclosed : (Lexeme.scan 1 false rest).closed = false → source.toList = before ++ t.text.toList
  /-- The pieces are a quote, those inside, and one more quote just if the lexer stopped at it. -/
  pieces : segments t.text.toList =
    .chunk .quote ['"'] :: (inner ++ closing (Lexeme.scan 1 false rest).closed)
  /-- No piece inside is a quote. -/
  quoteFree : QuoteFree inner
  /-- The code inside is what the lexer has passed over. -/
  passed : codesFrom 1 inner = (Lexeme.scan 1 false rest).passed
  /-- However code is read, the first token covers the first byte of the string, and the token of
  the closing quote, which is the last one, its last byte. -/
  tokens : ∀ read, expand read t =
    t.chunk .quote 0 1 :: (expandFrom read t 1 inner ++
      if (Lexeme.scan 1 false rest).closed then [t.chunk .quote (t.text.utf8ByteSize - 1) 1]
      else [])

/-- The code among pieces that a closing quote follows. -/
theorem codesFrom_append_closing (skip : Nat) (parts : List Segment) (closed : Bool) :
    codesFrom skip (parts ++ closing closed) = codesFrom skip parts := by
  rw [codesFrom_append]
  cases closed <;> exact List.append_nil _

/-- The pieces of what the lexer takes after an opening quote, and the code among them. -/
theorem exists_pieces (rest : List Char) :
    ∃ inner, segments ('"' :: (Lexeme.scan 1 false rest).taken) =
        .chunk .quote ['"'] :: (inner ++ closing (Lexeme.scan 1 false rest).closed) ∧
      QuoteFree inner ∧ codesFrom 1 inner = (Lexeme.scan 1 false rest).passed := by
  obtain ⟨inner, hpieces, hfree⟩ := Lexeme.exists_segments_richQuoted 1 rest
  rw [← Lexeme.taken_scan 1] at hpieces
  refine ⟨inner, hpieces, hfree, ?_⟩
  calc codesFrom 1 inner
      = codesFrom 0 (segments ('"' :: (Lexeme.scan 1 false rest).taken)) := by
        rw [hpieces]
        exact (codesFrom_append_closing 1 inner _).symm
    _ = bodies ('"' :: (Lexeme.scan 1 false rest).taken) := codesFrom_segments _
    _ = (Lexeme.scan 1 false rest).passed := Lexeme.bodies_taken_scan rest

/-- What becomes of a rich string with a quote at its beginning and perhaps one at its end. -/
theorem expand_of_segments (read : String → List Token) {inner : List Segment} {closed : Bool}
    (h : segments t.text.toList = .chunk .quote ['"'] :: (inner ++ closing closed)) :
    expand read t = t.chunk .quote 0 1 :: (expandFrom read t 1 inner ++
      if closed then [t.chunk .quote (t.text.utf8ByteSize - 1) 1] else []) := by
  have hone : Text.byteCount ['"'] = 1 := rfl
  have htext : t.text.toList =
      [] ++ (['"'] ++ (inner.flatMap Segment.text ++ (closing closed).flatMap Segment.text)) := by
    rw [← flatMap_text_segments t.text.toList, h, List.flatMap_cons, List.flatMap_append]
    rfl
  have hfirst := Token.chunk_of_append htext .quote
  -- After the first byte come the tokens inside and what becomes of the closing quote.
  have hexpand : expand read t = t.chunk .quote 0 1 :: (expandFrom read t 1 inner ++
      expandFrom read t (1 + Text.byteCount (inner.flatMap Segment.text)) (closing closed)) := by
    rw [expand, h, ← expandFrom_append]
    exact congrArg (· :: expandFrom read t 1 (inner ++ closing closed)) hfirst.symm
  rw [hexpand]
  cases closed with
  | false => rfl
  | true =>
    have hlast : t.text.toList = (['"'] ++ inner.flatMap Segment.text) ++ (['"'] ++ []) := htext
    have hskip : 1 + Text.byteCount (inner.flatMap Segment.text) = t.text.utf8ByteSize - 1 := by
      rw [← Text.byteCount_toList, hlast, List.append_nil, Text.byteCount_append,
        Text.byteCount_append, hone, Nat.add_sub_cancel]
    have hclosing := Token.chunk_of_append hlast .quote
    rw [Text.byteCount_append, hone, hskip] at hclosing
    rw [hskip, if_pos rfl, hclosing]
    rfl

/-- **Every rich string of a source is taken apart as the lexer has gone through it**, if it begins
with a quote. -/
theorem exists_agrees_of_mem_lex (ht : t ∈ lex source) (hquote : t.text.toList.head? = some '"') :
    ∃ before rest inner, Agrees source t before rest inner := by
  obtain ⟨before, c, rest, hsource, hkind, htext, -, hspan⟩ := exists_of_mem_lexFrom ht
  obtain ⟨tail, hfirst⟩ := Lexeme.exists_text_next c rest
  obtain rfl : c = '"' := by simpa [htext, hfirst] using hquote
  have htaken : t.text.toList = '"' :: (Lexeme.scan 1 false rest).taken := by
    rw [htext, String.toList_ofList, Lexeme.taken_scan]
    rfl
  obtain ⟨inner, hpieces, hfree, hpassed⟩ := exists_pieces rest
  rw [← htaken] at hpieces
  refine ⟨before, rest, inner, hsource, hkind, ?_, htaken, ?_, hpieces, hfree, hpassed, ?_⟩
  · rwa [Nat.zero_add] at hspan
  · intro hopen
    rw [htaken, Lexeme.taken_scan, Lexeme.richQuoted_eq_of_not_closed hopen, hsource]
  · intro read
    exact expand_of_segments read hpieces

/-- In a string with a quoted brace in its code and a quote that a backslash precedes. -/
theorem exists_agrees_escaped :
    let source := "x \"a \x7b'\x7d'\x7d \\\" b\" y"
    let t : Token := { kind := .richString, text := "\"a \x7b'\x7d'\x7d \\\" b\"", span := ⟨2, 16⟩ }
    t ∈ lex source ∧ t.text.toList.head? = some '"' ∧
      ∃ before rest inner, Agrees source t before rest inner := by
  intro source t
  have ht : t ∈ lex source := by
    have hlex : lex source =
        [{ kind := .identifier, text := "x", span := ⟨0, 1⟩ },
          { kind := .blank, text := " ", span := ⟨1, 2⟩ }, t,
          { kind := .blank, text := " ", span := ⟨16, 17⟩ },
          { kind := .identifier, text := "y", span := ⟨17, 18⟩ }] := by
      decide +kernel
    rw [hlex]
    decide
  have hquote : t.text.toList.head? = some '"' := by decide
  exact ⟨ht, hquote, exists_agrees_of_mem_lex ht hquote⟩

end ScriptReader.Rich
