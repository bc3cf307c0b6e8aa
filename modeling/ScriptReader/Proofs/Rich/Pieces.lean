import Mathlib.Data.List.Chain
import ScriptReader.Proofs.Rich.Endings
import ScriptReader.Proofs.Rich.Expansion

/-!
# Rich strings piece by piece

A rich string is taken apart into quotes, braces, literal text and code.  Whatever its text is, and
however code is read, the pieces make up the text, literal text comes before each quote and each
opening brace, and each piece is replaced on its own by tokens that lie where the piece does.

## Main Definitions

* `Rich.MayPrecede` — which pieces may come one right after another
* `Rich.placed` — the pieces of a text, with the bytes at which they begin
* `Rich.StandsFor` — the tokens that a piece is replaced by
* `Rich.IsTakenApart` — a rich string is made up of some pieces and replaced by their tokens

## Main Statements

* `Rich.isChain_segments` — which pieces come one right after another
* `Rich.kind_mem_of_mem_segments` — what pieces there are beside code
* `Rich.isTakenApart` — every rich string that is as long as its span is taken apart into its pieces

## Design Notes

The order of pieces is a matter of two neighbours, except that an opening brace cannot be the last
piece.  Both are shown once, along the cutting of the text, and everything else follows from them.
A run of literal text may be empty, so that there is one between any two interpolations, even if
nothing stands there.
-/

namespace ScriptReader.Rich

variable {cs done : List Char} {t : Token} {skip : Nat} {parts : List Segment} {p q : Segment}

/-! ## Pieces and their neighbours -/

/-- The second piece may come right after the first one. -/
inductive MayPrecede : Segment → Segment → Prop where
  /-- Literal text comes before a quote ... -/
  | literal_quote (run text : List Char) :
    MayPrecede (.chunk .stringLiteral run) (.chunk .quote text)
  /-- ... or before an interpolation. -/
  | literal_openBrace (run text : List Char) :
    MayPrecede (.chunk .stringLiteral run) (.chunk .openBrace text)
  /-- An interpolation is an opening brace, then code, ... -/
  | openBrace_code (text code : List Char) : MayPrecede (.chunk .openBrace text) (.code code)
  /-- ... then a closing brace. -/
  | code_closeBrace (code text : List Char) : MayPrecede (.code code) (.chunk .closeBrace text)
  /-- After an interpolation comes literal text, ... -/
  | closeBrace_literal (text run : List Char) :
    MayPrecede (.chunk .closeBrace text) (.chunk .stringLiteral run)
  /-- ... and so after a quote. -/
  | quote_literal (text run : List Char) :
    MayPrecede (.chunk .quote text) (.chunk .stringLiteral run)

/-- Literal text may come before other pieces, if these may come after it. -/
theorem isChain_cons_literalThen (run : List Char)
    (hp : ∀ run, MayPrecede p (.chunk .stringLiteral run))
    (hparts : ∀ run, (.chunk .stringLiteral run :: parts).IsChain MayPrecede) :
    (p :: literalThen run parts).IsChain MayPrecede := by
  unfold literalThen
  split
  case isTrue => exact .singleton p
  case isFalse => exact .cons_cons (hp run) (hparts run)

/-- What comes after a run of literal text may come there. -/
theorem isChain_cut (escaped : Bool) (cs run : List Char) :
    (.chunk .stringLiteral run :: (cut escaped cs).2).IsChain MayPrecede := by
  fun_induction cut escaped cs generalizing run with
  | case1 => exact .singleton _
  | case2 escaped c cs hquote after ih =>
    exact .cons_cons (.literal_quote run [c]) (isChain_cons_literalThen _ (.quote_literal [c]) ih)
  | case3 escaped c cs hquote hbrace code hdrop =>
    exact .cons_cons (.literal_openBrace run [c]) (.cons_cons (.openBrace_code [c] code)
      (.singleton _))
  | case4 escaped c cs hquote hbrace code d ds hdrop after ih =>
    exact .cons_cons (.literal_openBrace run [c]) (.cons_cons (.openBrace_code [c] code)
      (.cons_cons (.code_closeBrace code [d])
        (isChain_cons_literalThen _ (.closeBrace_literal [d]) ih)))
  | case5 escaped c cs hquote hbrace after ih => exact ih run

/-- Which pieces of a text come one right after another. -/
theorem isChain_segments (cs : List Char) : (segments cs).IsChain MayPrecede := by
  cases cs with
  | nil => exact .nil
  | cons c cs =>
    rw [segments]
    split
    case isTrue => exact isChain_cons_literalThen _ (.quote_literal [c]) (isChain_cut false cs)
    case isFalse =>
      dsimp only
      unfold literalThen
      split
      case isTrue => exact .nil
      case isFalse => exact isChain_cut false (c :: cs) _

theorem mayPrecede_of_segments {front back : List Segment}
    (h : segments cs = front ++ p :: q :: back) : MayPrecede p q :=
  (List.isChain_append_cons_cons.1 (h ▸ isChain_segments cs)).2.1

/-- The first piece is a quote or literal text. -/
theorem exists_of_segments_cons (h : segments cs = p :: parts) :
    ∃ k text, p = .chunk k text ∧ k ∈ textKinds := by
  cases cs with
  | nil => simp [segments] at h
  | cons c cs =>
    obtain ⟨k, text, rest, hfirst, hk⟩ := exists_segments_cons c cs
    rw [hfirst] at h
    obtain ⟨rfl, -⟩ := List.cons.inj h
    exact ⟨k, text, rfl, hk⟩

/-- Literal text and what comes after it do not end in an opening brace, if the latter does not. -/
theorem openBrace_notMem_getLast?_literalThen (run : List Char) {text : List Char}
    (hp : p ≠ .chunk .openBrace text) (hparts : .chunk .openBrace text ∉ parts.getLast?) :
    .chunk .openBrace text ∉ (p :: literalThen run parts).getLast? := by
  unfold literalThen
  split
  case isTrue => simpa using hp
  case isFalse => cases parts <;> simp_all

theorem openBrace_notMem_getLast?_cut (escaped : Bool) (cs text : List Char) :
    .chunk .openBrace text ∉ (cut escaped cs).2.getLast? := by
  fun_induction cut escaped cs with
  | case1 => simp
  | case2 escaped c cs hquote after ih =>
    exact openBrace_notMem_getLast?_literalThen _ (by simp) ih
  | case3 escaped c cs hquote hbrace code hdrop => simp
  | case4 escaped c cs hquote hbrace code d ds hdrop after ih =>
    exact openBrace_notMem_getLast?_literalThen (p := .chunk .closeBrace [d]) _ (by simp) ih
  | case5 escaped c cs hquote hbrace after ih => exact ih

/-- An opening brace is not the last piece of a text. -/
theorem openBrace_notMem_getLast?_segments (cs text : List Char) :
    .chunk .openBrace text ∉ (segments cs).getLast? := by
  cases cs with
  | nil => simp [segments]
  | cons c cs =>
    rw [segments]
    split
    case isTrue =>
      exact openBrace_notMem_getLast?_literalThen _ (by simp)
        (openBrace_notMem_getLast?_cut false cs text)
    case isFalse =>
      have hlast := openBrace_notMem_getLast?_cut false (c :: cs) text
      dsimp only
      unfold literalThen
      split
      case isTrue => simp
      case isFalse => cases hrest : (cut false (c :: cs)).2 <;> simp_all

/-- The kinds of the tokens that stand for pieces of a rich string that are not code. -/
def chunkKinds : List TokenKind := [.quote, .openBrace, .closeBrace, .stringLiteral]

/-- What is not code becomes quotes, braces or literal text. -/
theorem kind_mem_of_mem_segments {text : List Char} {k : TokenKind}
    (h : .chunk k text ∈ segments cs) : k ∈ chunkKinds := by
  obtain ⟨front, back, hsplit⟩ := List.append_of_mem h
  cases front using List.reverseRecOn with
  | nil =>
    obtain ⟨l, text', hfirst, hl⟩ := exists_of_segments_cons hsplit
    have htext : ∀ l ∈ textKinds, l ∈ chunkKinds := by decide
    cases hfirst
    exact htext k hl
  | append_singleton front p =>
    rw [List.append_assoc, List.singleton_append] at hsplit
    cases mayPrecede_of_segments hsplit <;> decide

/-! ## Where pieces begin -/

/-- The given pieces with the bytes at which they begin, the first one at byte `skip`. -/
def placedFrom (skip : Nat) : List Segment → List (Nat × Segment)
  | [] => []
  | part :: rest => (skip, part) :: placedFrom (skip + Text.byteCount part.text) rest

/-- The pieces of a text with the bytes at which they begin. -/
def placed (text : List Char) : List (Nat × Segment) := placedFrom 0 (segments text)

theorem map_snd_placedFrom (skip : Nat) (parts : List Segment) :
    (placedFrom skip parts).map Prod.snd = parts := by
  induction parts generalizing skip with
  | nil => rfl
  | cons part rest ih => exact congrArg (part :: ·) (ih _)

theorem map_snd_placed (text : List Char) : (placed text).map Prod.snd = segments text :=
  map_snd_placedFrom 0 (segments text)

/-- A piece begins where those before it end. -/
theorem fst_of_placedFrom {front back : List (Nat × Segment)} {piece : Nat × Segment}
    (h : placedFrom skip parts = front ++ piece :: back) :
    piece.1 = skip + Text.byteCount (front.flatMap fun p => p.2.text) := by
  induction parts generalizing skip front with
  | nil => simp [placedFrom] at h
  | cons part rest ih =>
    cases front with
    | nil =>
      obtain ⟨rfl, -⟩ := List.cons.inj h
      rfl
    | cons first front =>
      obtain ⟨rfl, hrest⟩ := List.cons.inj h
      rw [ih hrest, List.flatMap_cons, Text.byteCount_append, Nat.add_assoc]

theorem segments_of_placed {front back : List (Nat × Segment)} {piece : Nat × Segment}
    (h : placed cs = front ++ piece :: back) :
    segments cs = front.map Prod.snd ++ piece.2 :: back.map Prod.snd := by
  rw [← map_snd_placed, h, List.map_append, List.map_cons]

theorem mayPrecede_of_placed {front back : List (Nat × Segment)} {piece next : Nat × Segment}
    (h : placed cs = front ++ piece :: next :: back) : MayPrecede piece.2 next.2 :=
  mayPrecede_of_segments (segments_of_placed h)

/-- Code is among the code of the pieces. -/
theorem mem_codesFrom_of_mem_placedFrom {start : Nat} {code : List Char}
    (h : (start, .code code) ∈ placedFrom skip parts) : (start, code) ∈ codesFrom skip parts := by
  induction parts generalizing skip with
  | nil => simp [placedFrom] at h
  | cons part rest ih =>
    rcases List.mem_cons.1 h with hhere | hlater
    · cases hhere
      exact List.mem_cons_self
    · cases part with
      | chunk kind text => exact ih hlater
      | code text => exact List.mem_cons_of_mem _ (ih hlater)

/-! ## What stands for a piece -/

/-- The tokens that a piece of the rich string `t` is replaced by, which begins at the given byte of
its text.  `read` reads code. -/
inductive StandsFor (read : String → List Token) (t : Token) : Nat × Segment → List Token → Prop
    where
  /-- What is not code becomes one token, whose text is that slice of the text of `t`, and whose
  span lies as far behind the start of `t` as the slice behind the start of the text. -/
  | chunk {start : Nat} {kind : TokenKind} {text : List Char} {u : Token} (kind_eq : u.kind = kind)
    (text_eq : u.text = String.ofList text)
    (slice?_eq : Text.slice? t.text start (start + Text.byteCount text) = some u.text)
    (start_eq : u.span.start.toNat = t.span.start.toNat + start)
    (stop_eq : u.span.stop.toNat = t.span.start.toNat + (start + Text.byteCount text))
    (location_eq : u.location = none) : StandsFor read t (start, .chunk kind text) [u]
  /-- Code is read once, and becomes the tokens that are read from it.  They are moved by the place
  of the code in the source, and where they are in lines and columns is forgotten. -/
  | code {start : Nat} {text : List Char} {place : Offset}
    (place_eq : place.toNat = t.span.start.toNat + start) :
    StandsFor read t (start, .code text) ((read (String.ofList text)).map fun u =>
      { u with span := u.span.offsetBy place, location := none })

/-- The rich string `t` is made up of pieces, with the bytes at which they begin, and is replaced by
what stands for them. -/
structure IsTakenApart (t : Token) (pieces : List (Nat × Segment)) : Prop where
  /-- The pieces make up the text of the string, ... -/
  text_eq : pieces.flatMap (fun p => p.2.text) = t.text.toList
  /-- ... each beginning where those before it end. -/
  start_eq : ∀ front piece back, pieces = front ++ piece :: back →
    piece.1 = Text.byteCount (front.flatMap fun p => p.2.text)
  /-- They are quotes, literal text, braces ... -/
  kind_mem : ∀ start kind text, (start, .chunk kind text) ∈ pieces →
    kind ∈ [.quote, .openBrace, .closeBrace, .stringLiteral]
  /-- ... and code, which is the body of an interpolation that begins at its place. -/
  code_eq : ∀ start code, (start, .code code) ∈ pieces → String.ofList code = bodyAt t.text start
  /-- Literal text comes right before each opening brace, and each quote but one at the start. -/
  literal_before : ∀ front start kind text back,
    pieces = front ++ (start, .chunk kind text) :: back →
      kind = .openBrace ∨ kind = .quote ∧ start ≠ 0 →
        ∃ piece ∈ front.getLast?, ∃ run, piece.2 = .chunk .stringLiteral run
  /-- No two runs of literal text come one right after the other. -/
  not_literal_literal : ∀ front piece piece' back, pieces = front ++ piece :: piece' :: back →
    ∀ run run', piece.2 = .chunk .stringLiteral run → piece'.2 ≠ .chunk .stringLiteral run'
  /-- Code comes right after an opening brace, and right before a closing one if it is not last. -/
  braces_around : ∀ front start code back, pieces = front ++ (start, .code code) :: back →
    (∃ piece ∈ front.getLast?, ∃ text, piece.2 = .chunk .openBrace text) ∧
      ∀ piece ∈ back.head?, ∃ text, piece.2 = .chunk .closeBrace text
  /-- After every opening brace comes code. -/
  code_after : ∀ front start text back, pieces = front ++ (start, .chunk .openBrace text) :: back →
    ∃ piece ∈ back.head?, ∃ code, piece.2 = .code code
  /-- However code is read, each piece is replaced by tokens that stand for it, in their order. -/
  tokens : ∀ read,
    ∃ outs, expand read t = outs.flatten ∧ List.Forall₂ (StandsFor read t) pieces outs

/-- The pieces that follow `done` in a rich string are replaced by what stands for them. -/
theorem exists_expandFrom_eq_flatten (read : String → List Token)
    (hspan : t.span.start.toNat + t.text.utf8ByteSize ≤ t.span.stop.toNat) (done : List Char)
    (htext : t.text.toList = done ++ parts.flatMap Segment.text) :
    ∃ outs, expandFrom read t (Text.byteCount done) parts = outs.flatten ∧
      List.Forall₂ (StandsFor read t) (placedFrom (Text.byteCount done) parts) outs := by
  induction parts generalizing done with
  | nil => exact ⟨[], rfl, .nil⟩
  | cons part rest ih =>
    have hsplit : t.text.toList = done ++ (part.text ++ rest.flatMap Segment.text) := htext
    have hpiece : Text.IsPiece t.text.toList (Text.byteCount done)
        (Text.byteCount done + Text.byteCount part.text) part.text :=
      hsplit ▸ Text.IsPiece.of_append done part.text _
    have hfits := hpiece.stop_le
    rw [Text.byteCount_toList] at hfits
    obtain ⟨outs, hout, hstands⟩ := ih (done ++ part.text) (by rw [hsplit, List.append_assoc])
    rw [Text.byteCount_append] at hout hstands
    have hcons {us : List Token} (hus : StandsFor read t (Text.byteCount done, part) us)
        (hexpand : expandFrom read t (Text.byteCount done) (part :: rest) =
          us ++ expandFrom read t (Text.byteCount done + Text.byteCount part.text) rest) :
        ∃ outs, expandFrom read t (Text.byteCount done) (part :: rest) = outs.flatten ∧
          List.Forall₂ (StandsFor read t) (placedFrom (Text.byteCount done) (part :: rest)) outs :=
      ⟨us :: outs, by rw [hexpand, hout, List.flatten_cons], .cons hus hstands⟩
    cases part with
    | chunk kind text =>
      simp only [Segment.text] at hpiece hfits
      have hstop : t.span.start.toNat + Text.byteCount done + Text.byteCount text ≤
          t.span.stop.toNat := by omega
      exact hcons (.chunk rfl rfl hpiece.slice?_eq (t.span.toNat_start_slice _ (by omega))
        ((t.span.toNat_stop_slice hstop).trans (Nat.add_assoc ..)) rfl) rfl
    | code text =>
      refine hcons (.code ?_) rfl
      have htop := Offset.toNat_le_top t.span.stop
      exact Offset.toNat_plus_of_le (by omega)

/-- A rich string is replaced by what stands for its pieces. -/
theorem exists_expand_eq_flatten (read : String → List Token)
    (ht : t.span.length = t.text.utf8ByteSize) :
    ∃ outs, expand read t = outs.flatten ∧
      List.Forall₂ (StandsFor read t) (placed t.text.toList) outs := by
  rw [Span.length] at ht
  rcases Nat.eq_zero_or_pos t.text.utf8ByteSize with hnone | hsome
  · -- A token without text may have a span that stops before it starts.
    have hnil : t.text.toList = [] := by rw [String.utf8ByteSize_eq_zero_iff.1 hnone]; rfl
    rw [expand, hnil]
    exact ⟨[], rfl, .nil⟩
  · exact exists_expandFrom_eq_flatten read (by omega) [] (flatMap_text_segments _).symm

/-- A piece is the first one and begins with the text, or comes after one that may precede it. -/
theorem exists_getLast?_of_placed {front back : List (Nat × Segment)} {piece : Nat × Segment}
    (h : placed cs = front ++ piece :: back) :
    (piece.1 = 0 ∧ ∃ k text, piece.2 = .chunk k text ∧ k ∈ textKinds) ∨
      ∃ before ∈ front.getLast?, MayPrecede before.2 piece.2 := by
  cases front using List.reverseRecOn with
  | nil => exact .inl ⟨fst_of_placedFrom h, exists_of_segments_cons (segments_of_placed h)⟩
  | append_singleton front before =>
    rw [List.append_assoc, List.singleton_append] at h
    exact .inr ⟨before, List.getLast?_concat .., mayPrecede_of_placed h⟩

/-- Before each opening brace, and each quote but one at the start, comes literal text. -/
theorem exists_literal_of_placed {front back : List (Nat × Segment)} {start : Nat}
    {kind : TokenKind} {text : List Char}
    (h : placed cs = front ++ (start, .chunk kind text) :: back)
    (hkind : kind = .openBrace ∨ kind = .quote ∧ start ≠ 0) :
    ∃ piece ∈ front.getLast?, ∃ run, piece.2 = .chunk .stringLiteral run := by
  rcases exists_getLast?_of_placed h with ⟨hstart, k, text', hfirst, hk⟩ | ⟨piece, hlast, hnext⟩
  · cases hfirst
    rcases hkind with rfl | ⟨-, hne⟩
    · simp [textKinds] at hk
    · exact absurd hstart hne
  · refine ⟨piece, hlast, ?_⟩
    generalize piece.2 = p at hnext
    rcases hkind with rfl | ⟨rfl, -⟩ <;> cases hnext <;> exact ⟨_, rfl⟩

/-- Code comes right after an opening brace. -/
theorem exists_openBrace_of_placed {front back : List (Nat × Segment)} {start : Nat}
    {code : List Char} (h : placed cs = front ++ (start, .code code) :: back) :
    ∃ piece ∈ front.getLast?, ∃ text, piece.2 = .chunk .openBrace text := by
  rcases exists_getLast?_of_placed h with ⟨-, k, text', hfirst, -⟩ | ⟨piece, hlast, hnext⟩
  · cases hfirst
  · refine ⟨piece, hlast, ?_⟩
    generalize piece.2 = p at hnext
    cases hnext
    exact ⟨_, rfl⟩

/-- Code is followed by nothing but a closing brace. -/
theorem exists_closeBrace_of_placed {front back : List (Nat × Segment)} {start : Nat}
    {code : List Char} (h : placed cs = front ++ (start, .code code) :: back) :
    ∀ piece ∈ back.head?, ∃ text, piece.2 = .chunk .closeBrace text := by
  cases back with
  | nil => simp
  | cons piece back =>
    rintro _ ⟨⟩
    have hnext := mayPrecede_of_placed h
    generalize piece.2 = p at hnext
    cases hnext
    exact ⟨_, rfl⟩

/-- After every opening brace comes code. -/
theorem exists_code_of_placed {front back : List (Nat × Segment)} {start : Nat} {text : List Char}
    (h : placed cs = front ++ (start, .chunk .openBrace text) :: back) :
    ∃ piece ∈ back.head?, ∃ code, piece.2 = .code code := by
  cases back with
  | nil =>
    refine absurd ?_ (openBrace_notMem_getLast?_segments cs text)
    rw [segments_of_placed h]
    simp
  | cons piece back =>
    have hnext := mayPrecede_of_placed h
    refine ⟨piece, rfl, ?_⟩
    generalize piece.2 = p at hnext
    cases hnext
    exact ⟨_, rfl⟩

/-- A rich string that is as long as its span is made up of its pieces, and replaced by what stands
for them. -/
theorem isTakenApart (ht : t.span.length = t.text.utf8ByteSize) :
    IsTakenApart t (placed t.text.toList) where
  text_eq := by
    have htexts := flatMap_text_segments t.text.toList
    rwa [← map_snd_placed, List.flatMap_map] at htexts
  start_eq front piece back h := (fst_of_placedFrom h).trans (Nat.zero_add _)
  kind_mem start kind text h := by
    have hsegment : .chunk kind text ∈ (placed t.text.toList).map Prod.snd := List.mem_map_of_mem h
    rw [map_snd_placed] at hsegment
    exact kind_mem_of_mem_segments hsegment
  code_eq start code h := by
    have hcode := mem_codesFrom_of_mem_placedFrom h
    rw [codesFrom_segments] at hcode
    exact (bodyAt_of_mem_bodies hcode).symm
  literal_before _ _ _ _ _ h hkind := exists_literal_of_placed h hkind
  not_literal_literal _ piece next _ h run run' hrun hrun' := by
    have hnext := mayPrecede_of_placed h
    rw [hrun, hrun'] at hnext
    cases hnext
  braces_around _ _ _ _ h := ⟨exists_openBrace_of_placed h, exists_closeBrace_of_placed h⟩
  code_after _ _ _ _ h := exists_code_of_placed h
  tokens read := exists_expand_eq_flatten read ht

/-- A brace that is escaped is literal text, no literal text is left out between interpolations, and
one that is never closed reaches to the end. -/
theorem isTakenApart_unclosed :
    let t : Token :=
      { kind := .richString, text := "\"é\\\x7b\x7ba\x7d\x7bb", span := ⟨3, 13⟩ }
    t.span.length = t.text.utf8ByteSize ∧
      IsTakenApart t
        [(0, .chunk .quote ['"']), (1, .chunk .stringLiteral ['é', '\\', '{']),
          (5, .chunk .openBrace ['{']), (6, .code ['a']), (7, .chunk .closeBrace ['}']),
          (8, .chunk .stringLiteral []), (8, .chunk .openBrace ['{']), (9, .code ['b'])] := by
  have hpieces : placed "\"é\\\x7b\x7ba\x7d\x7bb".toList =
      [(0, .chunk .quote ['"']), (1, .chunk .stringLiteral ['é', '\\', '{']),
        (5, .chunk .openBrace ['{']), (6, .code ['a']), (7, .chunk .closeBrace ['}']),
        (8, .chunk .stringLiteral []), (8, .chunk .openBrace ['{']), (9, .code ['b'])] := by
    decide +kernel
  intro t
  have ht : t.span.length = t.text.utf8ByteSize := by decide
  exact ⟨ht, hpieces ▸ isTakenApart ht⟩

end ScriptReader.Rich
