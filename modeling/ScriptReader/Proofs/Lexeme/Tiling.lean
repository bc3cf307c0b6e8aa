import ScriptReader.Lexeme
import ScriptReader.Proofs.Token.Tiling

/-!
# Lexemes follow one another without gaps

A lexeme is a leading part of the text that it is found in, and the next one is looked for right
after it.  The tokens of a source therefore account for all of its bytes.

## Main Statements

* `Lexeme.text_next_isPrefix` — a lexeme begins the text that it is found in
* `tiles_lex` — the tokens of a source are its pieces, with nothing between them
-/

namespace ScriptReader

namespace Lexeme

/-! ## Lexemes are leading parts -/

theorem quoted_isPrefix (quote : Char) (escaped : Bool) (cs : List Char) :
    quoted quote escaped cs <+: cs := by
  fun_induction quoted quote escaped cs with
  | case1 => exact List.prefix_refl []
  | case2 escaped c cs hquote => exact ⟨cs, rfl⟩
  | case3 escaped c cs hquote ih => exact (List.prefix_cons_inj c).2 ih

theorem richQuoted_isPrefix (escaped : Bool) (cs : List Char) : richQuoted escaped cs <+: cs := by
  fun_induction richQuoted escaped cs with
  | case1 => exact List.prefix_refl []
  | case2 escaped c cs hbrace size ih =>
    -- The body and its closing brace are taken over as they are.
    have hrest := (List.prefix_append_right_inj (cs.take size)).2 ih
    rw [List.take_append_drop] at hrest
    exact (List.prefix_cons_inj c).2 hrest
  | case3 escaped c cs hbrace hquote => exact ⟨cs, rfl⟩
  | case4 escaped c cs hbrace hquote ih => exact (List.prefix_cons_inj c).2 ih

theorem text_next_isPrefix (c : Char) (cs : List Char) : (next c cs).text <+: c :: cs := by
  unfold next
  repeat' split
  all_goals
    first
    | exact List.takeWhile_prefix _
    | exact (List.prefix_cons_inj c).2 (richQuoted_isPrefix _ _)
    | exact (List.prefix_cons_inj c).2 (quoted_isPrefix _ _ _)

/-- What a lexeme leaves of its text is what comes after it. -/
theorem text_append_drop_next (c : Char) (cs : List Char) :
    (next c cs).text ++ (c :: cs).drop (next c cs).text.length = c :: cs :=
  List.prefix_iff_eq_append.1 (text_next_isPrefix c cs)

end Lexeme

/-! ## Lexing -/

/-- The tokens of what follows `before` in a source begin right after it. -/
theorem tiles_lexFrom {whole : List Char} (before cs : List Char) (hwhole : whole = before ++ cs)
    (htop : Text.byteCount whole ≤ Offset.top) :
    Tiles (fun _ => False) (Token.IsPieceOf whole) (Text.byteCount before) (Text.byteCount whole)
      (lexFrom (Text.byteCount before) cs) := by
  generalize hstart : Text.byteCount before = start
  fun_induction lexFrom start cs generalizing before with
  | case1 start =>
    rw [hwhole, List.append_nil, hstart]
    exact .nil (.refl _)
  | case2 start c cs first stop =>
    rename_i ih
    have hsplit : whole = before ++ (first.text ++ (c :: cs).drop first.text.length) := by
      rw [hwhole, Lexeme.text_append_drop_next]
    have hstop : Text.byteCount (before ++ first.text) = stop := by
      rw [Text.byteCount_append, hstart]
    have hle : stop ≤ Text.byteCount whole := by
      rw [hsplit, ← List.append_assoc, Text.byteCount_append, hstop]
      exact Nat.le_add_right _ _
    have hstartSpan : (Span.ofBytes start stop).start.toNat = start :=
      Span.toNat_start_ofBytes stop (by omega)
    have hstopSpan : (Span.ofBytes start stop).stop.toNat = stop :=
      Span.toNat_stop_ofBytes (by omega) (by omega)
    have hrest := ih (before ++ first.text) (by rw [hsplit, List.append_assoc]) hstop
    refine .cons ?_ ?_ ⟨before, (c :: cs).drop first.text.length, ?_, ?_, ?_⟩ ?_
    · rw [hstartSpan]
      exact .refl start
    · rw [hstartSpan, hstopSpan]
      omega
    · rw [String.toList_ofList, hsplit]
    · rw [hstartSpan, hstart]
    · rw [hstopSpan, String.toList_ofList, ← hstop, Text.byteCount_append]
    · rw [hstopSpan]
      exact hrest

/-- The tokens of a source are its pieces, with nothing between them. -/
theorem tiles_lex {source : String} (htop : source.utf8ByteSize ≤ Offset.top) :
    Tiles (fun _ => False) (Token.IsPieceOf source.toList) 0 source.utf8ByteSize (lex source) := by
  have hwhole : source.toList = [] ++ source.toList := rfl
  have h := tiles_lexFrom [] source.toList hwhole (by simpa using htop)
  rwa [Text.byteCount_toList] at h

end ScriptReader
