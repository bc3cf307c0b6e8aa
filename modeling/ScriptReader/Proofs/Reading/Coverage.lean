import ScriptReader.Proofs.Lexeme.Tiling
import ScriptReader.Proofs.Rich.Expansion
import ScriptReader.Proofs.Stage.Tiling
import ScriptReader.Reading

/-!
# The tokens of a source and the bytes of the source

However deep in interpolations a token was read, its span says where its text is in the source, and
no two spans overlap.  What no token stands for is layout: blanks, comments and line breaks of the
source, and those of the code inside its rich strings.

## Main Definitions

* `Spared` — bytes of a source that need not be part of a token
* `Token.IsTextOf` — a token says truly where its text is

## Main Statements

* `tiles_tokenize` — the tokens of a source account for its bytes
* `tokenize_spans_faithful` — the tokens are pieces of the source, in order and apart
* `countP_covers_tokenize` — no byte is part of two tokens, and none but layout is part of none

## Design Notes

Code is a source of its own and is read in the same way, so the proof follows the reading: the
tokens of the code account for the code, hence those of the rich string for its span.  That code is
read at all, and not refused for its length, is because an opening brace stands before it.
-/

namespace ScriptReader

/-! ## Layout -/

/-- Bytes of a source that need not be part of a token. -/
inductive Spared : String → Nat → Prop
  /-- A byte of a blank, a comment or a line break. -/
  | layout {source : String} {t : Token} {x : Nat} (mem : t ∈ lex source)
      (kind : t.kind ∈ [.blank, .comment, .newline]) (covers : t.Covers x) : Spared source x
  /-- A byte of the code in a rich string that need not be part of a token of that code. -/
  | code {source : String} {t : Token} {o x : Nat} {code : List Char} (mem : t ∈ lex source)
      (kind : t.kind = .richString) (body : (o, code) ∈ Rich.bodies t.text.toList)
      (spared : Spared (String.ofList code) x) : Spared source (t.span.start.toNat + o + x)

/-- The layout of a source is its own and that of the code in its rich strings. -/
theorem spared_iff {source : String} {x : Nat} :
    Spared source x ↔
      (∃ t ∈ lex source, t.kind ∈ [.blank, .comment, .newline] ∧ t.Covers x) ∨
      ∃ t ∈ lex source, t.kind = .richString ∧ ∃ c ∈ Rich.bodies t.text.toList,
        ∃ y, Spared (String.ofList c.2) y ∧ x = t.span.start.toNat + c.1 + y := by
  constructor
  · intro h
    cases h with
    | layout mem kind covers => exact .inl ⟨_, mem, kind, covers⟩
    | code mem kind body spared => exact .inr ⟨_, mem, kind, _, body, _, spared, rfl⟩
  · rintro (⟨t, mem, kind, covers⟩ | ⟨t, mem, kind, c, body, y, spared, rfl⟩)
    · exact .layout mem kind covers
    · exact .code mem kind body spared

/-! ## Reading -/

open Token (Faithful)

/-- The stages before rich strings are taken apart. -/
def Pass.beforeInterpolation : List Pass :=
  [.trivia, .newlineElision, .indentation, .starOperator, .functionLiteral, .newlineCleanup,
    .destructuring, .cascade, .memberName]

/-- Rich strings are taken apart when those stages are done, and after that only snippets are looked
at. -/
theorem Pipeline.apply_standard (read : String → List Token) (ts : List Token) :
    Pipeline.apply (.ofPasses read Pass.standard) ts =
      Stage.embeddedSnippet.apply ((Stage.interpolation read).apply
        (Pipeline.apply (.ofPasses read Pass.beforeInterpolation) ts)) := by
  have hstandard : Pass.standard =
      Pass.beforeInterpolation ++ [.interpolation, .embeddedSnippet] := rfl
  rw [hstandard, Pipeline.ofPasses, List.map_append, Pipeline.apply, List.foldl_append]
  rfl

/-- The tokens of a source account for its bytes, if code is read to tokens that account for it. -/
theorem tiles_apply_standard {source : String} {read : String → List Token}
    (htop : source.utf8ByteSize ≤ Offset.top)
    (hread : ∀ t ∈ lex source, ∀ c ∈ Rich.bodies t.text.toList, t.IsPieceOf source.toList →
      Tiles (Spared (String.ofList c.2)) (Token.IsPieceOf c.2) 0 (Text.byteCount c.2)
        (read (String.ofList c.2))) :
    Tiles (Spared source) (Token.IsPieceOf source.toList) 0 source.utf8ByteSize
      (Pipeline.apply (.ofPasses read Pass.standard) (lex source)) := by
  have hlexed : Tiles (Spared source) (Faithful source.toList (· ∈ lex source)) 0
      source.utf8ByteSize (lex source) :=
    (tiles_lex htop).weaken (fun _ hx => hx.elim) fun t ht hpiece => ⟨hpiece, fun _ => ht⟩
  have hbefore : Tiles (Spared source) (Faithful source.toList (· ∈ lex source)) 0
      source.utf8ByteSize
      (Pipeline.apply (.ofPasses read Pass.beforeInterpolation) (lex source)) := by
    refine Pipeline.tiles_apply ?_ hlexed
    intro S hS
    obtain ⟨p, hp, rfl⟩ := List.mem_map.1 hS
    refine Pass.keepsTiles_stage ?_ read p ?_
    · intro u hu hkind x hx
      exact .layout hu (TokenKind.isDroppable_iff.1 hkind) hx
    · rintro rfl
      exact absurd hp (by decide)
  have hexpanded : Tiles (Spared source) (Token.IsPieceOf source.toList) 0 source.utf8ByteSize
      ((Stage.interpolation read).apply
        (Pipeline.apply (.ofPasses read Pass.beforeInterpolation) (lex source))) := by
    rw [Stage.apply_interpolation]
    apply hbefore.flatMap
    intro t _ ht
    split
    case isTrue hrich =>
      -- Only the lexer makes rich strings, so this one is a token of the source.
      have hmem : t ∈ lex source := ht.native_of_isNative (by simp [hrich, TokenKind.isNative])
      apply Rich.tiles_expand ht.piece (by simpa using htop)
      intro c hc
      exact (hread t hmem c hc ht.piece).weaken (fun x hx => .code hmem hrich hc hx)
        fun _ _ hu => hu
    case isFalse => exact .single ht.piece.start_le_stop ht.piece
  have hlast : Tiles (Spared source) (Faithful source.toList fun _ => True) 0
      source.utf8ByteSize
      (Stage.embeddedSnippet.apply ((Stage.interpolation read).apply
        (Pipeline.apply (.ofPasses read Pass.beforeInterpolation) (lex source)))) :=
    Stage.keepsTiles_embeddedSnippet
      (hexpanded.weaken (fun _ hx => hx) fun _ _ hpiece => ⟨hpiece, fun _ => trivial⟩)
  rw [Pipeline.apply_standard]
  exact hlast.weaken (fun _ hx => hx) fun _ _ ht => ht.piece

/-- The tokens of a source account for its bytes. -/
theorem tiles_tokenize (source : String) (htop : source.utf8ByteSize ≤ Offset.top) :
    Tiles (Spared source) (Token.IsPieceOf source.toList) 0 source.utf8ByteSize
      (tokenize source) := by
  rw [tokenize]
  apply tiles_apply_standard htop
  intro t _ c hc ht
  have hshort : (String.ofList c.2).utf8ByteSize < source.utf8ByteSize := by
    have hcode := Rich.byteCount_lt_of_mem_bodies hc
    have htext := ht.stop_eq
    have hle := ht.stop_le
    rw [Text.byteCount_toList] at hle
    rw [Text.utf8ByteSize_ofList]
    omega
  rw [if_pos hshort]
  have hcode := tiles_tokenize (String.ofList c.2) (by omega)
  rwa [String.toList_ofList, Text.utf8ByteSize_ofList] at hcode
  termination_by source.utf8ByteSize
  decreasing_by simpa using hshort

/-! ## What the tokens say of the source -/

/-- The span of the token says truly where in the source its text is. -/
structure Token.IsTextOf (source : String) (t : Token) : Prop where
  /-- The span does not run backwards. -/
  start_le_stop : t.span.start ≤ t.span.stop
  /-- It does not reach past the end of the source. -/
  stop_le : t.span.stop.toNat ≤ source.utf8ByteSize
  /-- It begins between characters. -/
  isValid_start : (⟨t.span.start.toNat⟩ : String.Pos.Raw).IsValid source
  /-- It ends between characters. -/
  isValid_stop : (⟨t.span.stop.toNat⟩ : String.Pos.Raw).IsValid source
  /-- What is between its ends is the text of the token. -/
  slice?_eq : Text.slice? source t.span.start.toNat t.span.stop.toNat = some t.text

theorem Token.IsPieceOf.isTextOf {source : String} {t : Token} (h : t.IsPieceOf source.toList) :
    t.IsTextOf source where
  start_le_stop := UInt32.le_iff_toNat_le.2 h.start_le_stop
  stop_le := by
    rw [← Text.byteCount_toList]
    exact h.stop_le
  isValid_start := h.isValid_start
  isValid_stop := h.isValid_stop
  slice?_eq := by rw [h.slice?_eq, String.ofList_toList]

/-- The tokens of a source say truly where their texts are, and each ends before the next begins. -/
theorem tokenize_spans_faithful {source : String} (htop : source.utf8ByteSize ≤ Offset.top) :
    (∀ t ∈ tokenize source, t.IsTextOf source) ∧
    (tokenize source).Pairwise fun t u => t.span.stop ≤ u.span.start := by
  have htiles := tiles_tokenize source htop
  refine ⟨?_, htiles.pairwise⟩
  intro t ht
  exact (htiles.good_of_mem t ht).isTextOf

/-- A source with code inside code, after a character of two bytes. -/
theorem tokenize_spans_faithful_nested :
    "é \"a \x7b \"\x7bb\x7d\" \x7d\"".utf8ByteSize ≤ Offset.top ∧
    (∀ t ∈ tokenize "é \"a \x7b \"\x7bb\x7d\" \x7d\"",
      t.IsTextOf "é \"a \x7b \"\x7bb\x7d\" \x7d\"") ∧
    (tokenize "é \"a \x7b \"\x7bb\x7d\" \x7d\"").Pairwise
      fun t u => t.span.stop ≤ u.span.start :=
  ⟨by decide, tokenize_spans_faithful (by decide)⟩

/-- No byte of a source is part of two tokens, and every byte but those of layout is part of one. -/
theorem countP_covers_tokenize {source : String} (htop : source.utf8ByteSize ≤ Offset.top)
    (x : Nat) :
    (tokenize source).countP (·.Covers x) ≤ 1 ∧
    (x < source.utf8ByteSize → ¬ Spared source x →
      (tokenize source).countP (·.Covers x) = 1) := by
  have htiles := tiles_tokenize source htop
  constructor
  · exact htiles.countP_covers_le_one x
  · intro hlt hx
    exact htiles.countP_covers_eq_one (Nat.zero_le x) hlt hx

/-- In a string whose code is a blank and a name, the name is part of a token and the blank need not
be. -/
theorem countP_covers_tokenize_code :
    "\"\x7b a\x7d\"".utf8ByteSize ≤ Offset.top ∧ 3 < "\"\x7b a\x7d\"".utf8ByteSize ∧
    Spared "\"\x7b a\x7d\"" 2 ∧ ¬ Spared "\"\x7b a\x7d\"" 3 ∧
    (tokenize "\"\x7b a\x7d\"").countP (·.Covers 3) = 1 := by
  have hlex : lex "\"\x7b a\x7d\"" =
      [{ kind := .richString, text := "\"\x7b a\x7d\"", span := ⟨0, 6⟩ }] := by
    simp [lex, lexFrom, Lexeme.next, Lexeme.isBlank, Lexeme.isBreak, Lexeme.richQuoted,
      Rich.body, Rich.bodyFrom]
    decide
  have hbodies : Rich.bodies "\"\x7b a\x7d\"".toList = [(2, [' ', 'a'])] := by
    simp [Rich.bodies, Rich.bodiesFrom, Rich.body, Rich.bodyFrom]
    decide
  have hcode : lex (String.ofList [' ', 'a']) =
      [{ kind := .blank, text := " ", span := ⟨0, 1⟩ },
        { kind := .identifier, text := "a", span := ⟨1, 2⟩ }] := by
    simp [lex, lexFrom, Lexeme.next, Lexeme.isBlank, Lexeme.isBreak, Lexeme.isSpace]
    decide
  have hinner (x : Nat) : Spared (String.ofList [' ', 'a']) x ↔ x = 0 := by
    rw [spared_iff, hcode]
    simp [Token.Covers]
  have hspared (x : Nat) : Spared "\"\x7b a\x7d\"" x ↔ x = 2 := by
    rw [spared_iff, hlex]
    simp only [List.mem_singleton, exists_eq_left, hbodies, hinner]
    simp
  have htop : "\"\x7b a\x7d\"".utf8ByteSize ≤ Offset.top := by decide
  have hlt : 3 < "\"\x7b a\x7d\"".utf8ByteSize := by decide
  have hnot : ¬ Spared "\"\x7b a\x7d\"" 3 := by simp [hspared]
  have hcount := (countP_covers_tokenize htop 3).2 hlt hnot
  exact ⟨htop, hlt, (hspared 2).2 rfl, hnot, hcount⟩

end ScriptReader
