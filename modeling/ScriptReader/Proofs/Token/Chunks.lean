import Mathlib.Data.List.Infix
import ScriptReader.Proofs.Source.Span
import ScriptReader.Proofs.Text.Octets
import ScriptReader.Stream.History

/-!
# Chunks of a token

A chunk of a token gets its span from the span of the token and its text from the text.  The two are
cut off separately, one in words and the other in numbers of any size.  If the text is as long as
the span they are cut off alike.

## Main Definitions

* `Token.IsChunkOf` — a token stands for what another one holds in a part of its span

## Main Statements

* `Text.exists_isPiece_of_isValid` — there is a piece between any two boundaries of a text
* `Token.chunk_isChunkOf` — a chunk of a token as long as its span
* `Span.isWithin_of_made` — the spans that can be made, their parts, and the chunks of tokens that
  have them

## Design Notes

A chunk whose ends are not boundaries of characters keeps its span and has no text.
-/

namespace ScriptReader

/-! ## Texts cut at boundaries -/

namespace Text

variable {s t : String} {a b : Nat}

/-- What is cut out of a text is a piece of it. -/
theorem isPiece_of_slice? (hab : a ≤ b) (h : slice? s a b = some t) :
    IsPiece s.toList a b t.toList := by
  obtain ⟨rest, hdrop, htake⟩ := Option.bind_eq_some_iff.1 h
  obtain ⟨taken, htaken, rfl⟩ := Option.map_eq_some_iff.1 htake
  obtain ⟨before, hs, hbefore⟩ := exists_append_of_dropBytes? hdrop
  obtain ⟨after, rfl, hcount⟩ := exists_append_of_takeBytes? htaken
  rw [String.toList_ofList]
  exact ⟨before, after, hs, hbefore.symm, by omega⟩

/-- Between two boundaries of a text there is a piece of it. -/
theorem exists_isPiece_of_isValid (ha : (⟨a⟩ : String.Pos.Raw).IsValid s)
    (hb : (⟨b⟩ : String.Pos.Raw).IsValid s) (hab : a ≤ b) :
    ∃ piece, IsPiece s.toList a b piece := by
  obtain ⟨before, rest, hs, rfl⟩ := exists_append_of_isValid ha
  obtain ⟨front, back, hs', rfl⟩ := exists_append_of_isValid hb
  rcases List.prefix_or_prefix_of_prefix ⟨rest, hs.symm⟩ ⟨back, hs'.symm⟩ with
    ⟨piece, rfl⟩ | ⟨more, rfl⟩
  · exact ⟨piece, before, back, by rw [hs', List.append_assoc], rfl, byteCount_append _ _⟩
  · -- The first boundary is not after the second one, so the two are the same.
    refine ⟨[], front ++ more, rest, hs, rfl, ?_⟩
    rw [byteCount_append] at hab ⊢
    simp only [byteCount_nil]
    omega

end Text

/-! ## Chunks -/

/-- The token `u` of kind `k` has as its span the part of `size` bytes from byte `skip` of that of
`t` on, which lies within it, and its text is what the text of `t` holds at the bytes that its span
covers; it has no text if it would begin or end inside of a character. -/
structure Token.IsChunkOf (t : Token) (k : TokenKind) (skip size : Nat) (u : Token) : Prop where
  /-- It has the kind that was asked for. -/
  kind_eq : u.kind = k
  /-- It has the part of the span that was asked for. -/
  span_eq : u.span = t.span.slice skip size
  /-- Where it is in lines and columns is not known. -/
  location_eq : u.location = none
  /-- It does not begin before the other. -/
  start_le : t.span.start ≤ u.span.start
  /-- Its span does not run backwards. -/
  start_le_stop : u.span.start ≤ u.span.stop
  /-- It does not end after the other. -/
  stop_le : u.span.stop ≤ t.span.stop
  /-- Between characters its text is a piece of the other. -/
  text_of_isValid :
    (⟨u.span.start.toNat - t.span.start.toNat⟩ : String.Pos.Raw).IsValid t.text →
    (⟨u.span.stop.toNat - t.span.start.toNat⟩ : String.Pos.Raw).IsValid t.text →
    Text.IsPiece t.text.toList (u.span.start.toNat - t.span.start.toNat)
      (u.span.stop.toNat - t.span.start.toNat) u.text.toList
  /-- Inside of a character it has none. -/
  text_of_not_isValid :
    ¬ ((⟨u.span.start.toNat - t.span.start.toNat⟩ : String.Pos.Raw).IsValid t.text ∧
      (⟨u.span.stop.toNat - t.span.start.toNat⟩ : String.Pos.Raw).IsValid t.text) →
    u.text = ""

/-- A chunk of a token whose text is as long as its span. -/
theorem Token.chunk_isChunkOf {t : Token} (ht : t.span.start ≤ t.span.stop)
    (hsize : t.text.utf8ByteSize = t.span.length) (k : TokenKind) (skip size : Nat) :
    t.IsChunkOf k skip size (t.chunk k skip size) := by
  have hcuts := Span.cutsAt ht skip size
  have hstart := hcuts.start_slice
  have hstop := hcuts.stop_slice
  have hle := UInt32.le_iff_toNat_le.1 ht
  have hlength : t.span.length = t.span.stop.toNat - t.span.start.toNat := rfl
  -- Text and span are cut off at the same bytes.
  have ha : (t.span.slice skip size).start.toNat - t.span.start.toNat =
      min skip t.text.utf8ByteSize := by omega
  have hb : (t.span.slice skip size).stop.toNat - t.span.start.toNat =
      min (min skip t.text.utf8ByteSize + size) t.text.utf8ByteSize := by omega
  have hab : min skip t.text.utf8ByteSize ≤
      min (min skip t.text.utf8ByteSize + size) t.text.utf8ByteSize := by omega
  constructor
  case kind_eq => rfl
  case span_eq => rfl
  case location_eq => rfl
  case start_le =>
    rw [UInt32.le_iff_toNat_le]
    show t.span.start.toNat ≤ (t.span.slice skip size).start.toNat
    omega
  case start_le_stop =>
    rw [UInt32.le_iff_toNat_le]
    show (t.span.slice skip size).start.toNat ≤ (t.span.slice skip size).stop.toNat
    omega
  case stop_le =>
    rw [UInt32.le_iff_toNat_le]
    show (t.span.slice skip size).stop.toNat ≤ t.span.stop.toNat
    omega
  case text_of_isValid =>
    simp only [chunk, ha, hb]
    intro hvalid hvalid'
    obtain ⟨piece, hpiece⟩ := Text.exists_isPiece_of_isValid hvalid hvalid' hab
    rw [hpiece.slice?_eq, Option.getD_some, String.toList_ofList]
    exact hpiece
  case text_of_not_isValid =>
    simp only [chunk, ha, hb]
    intro hvalid
    cases hslice : Text.slice? t.text (min skip t.text.utf8ByteSize)
      (min (min skip t.text.utf8ByteSize + size) t.text.utf8ByteSize) with
    | none => rfl
    | some text =>
      have hpiece := Text.isPiece_of_slice? hab hslice
      exact absurd ⟨hpiece.isValid_start, hpiece.isValid_stop⟩ hvalid

/-- The ends of a span that can be made are in order, parts are cut out of it without wrapping
around, and if the newest token of a history has such a span and a text as long as it, all chunks of
the token lie in it and have the texts that belong there. -/
theorem Span.isWithin_of_made {s : Span} (hs : s.Made) :
    s.start ≤ s.stop ∧ (∀ skip size, s.CutsAt skip size) ∧
      ∀ (h : History) (t : Token), h.current = some t → t.span = s →
        t.text.utf8ByteSize = s.length →
          ∀ k skip size, t.IsChunkOf k skip size (h.chunk k skip size) := by
  refine ⟨hs.start_le_stop, Span.cutsAt hs.start_le_stop, ?_⟩
  rintro h t hcurrent rfl hsize k skip size
  rw [History.chunk, hcurrent]
  exact Token.chunk_isChunkOf hs.start_le_stop hsize k skip size

/-- A token of eight bytes, among them characters of two and of three, that ends at the greatest
offset. -/
theorem Span.isWithin_of_made_top :
    let s := (Span.ofBytes 1 9).offsetBy 4294967286
    let t : Token := { kind := .richString, text := "aéb→c", span := s }
    s.Made ∧ (History.empty.push t).current = some t ∧ t.text.utf8ByteSize = s.length ∧
      s.start ≤ s.stop ∧ (∀ skip size, s.CutsAt skip size) ∧
      ∀ k skip size, t.IsChunkOf k skip size ((History.empty.push t).chunk k skip size) := by
  intro s t
  have hmade : s.Made := .offsetBy (.ofBytes 1 9) 4294967286
  have hsize : t.text.utf8ByteSize = s.length := by decide
  obtain ⟨hle, hcuts, hchunks⟩ := Span.isWithin_of_made hmade
  exact ⟨hmade, rfl, hsize, hle, hcuts, hchunks _ t rfl rfl hsize⟩

end ScriptReader
