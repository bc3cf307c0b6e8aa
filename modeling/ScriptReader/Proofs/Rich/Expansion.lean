import ScriptReader.Proofs.Rich.Bodies
import ScriptReader.Proofs.Token.Tiling
import ScriptReader.Stage.Interpolation

/-!
# Rich strings are replaced where they stand

The tokens that stand for a rich string account for its span, provided that the tokens of each
interpolation account for its code.

## Main Statements

* `Rich.tiles_expand` — the tokens of a rich string account for its span
* `Stage.apply_interpolation` — rich strings are replaced one by one
-/

namespace ScriptReader

/-- A part of the text of a token is what is cut out of the token at its place. -/
theorem Token.chunk_of_append {t : Token} {done text rest : List Char}
    (h : t.text.toList = done ++ (text ++ rest)) (k : TokenKind) :
    t.chunk k (Text.byteCount done) (Text.byteCount text) =
      { kind := k, text := String.ofList text,
        span := t.span.slice (Text.byteCount done) (Text.byteCount text) } := by
  have hpiece : Text.IsPiece t.text.toList (Text.byteCount done)
      (Text.byteCount done + Text.byteCount text) text :=
    h ▸ Text.IsPiece.of_append done text rest
  have hstop := hpiece.stop_le
  rw [Text.byteCount_toList] at hstop
  have hstart : min (Text.byteCount done) t.text.utf8ByteSize = Text.byteCount done := by omega
  have hend : min (Text.byteCount done + Text.byteCount text) t.text.utf8ByteSize =
      Text.byteCount done + Text.byteCount text := by omega
  simp only [chunk, hstart, hend, hpiece.slice?_eq, Option.getD_some]

namespace Rich

variable {spare : Nat → Prop} {whole : List Char} {read : String → List Token} {t : Token}

/-- The tokens of parts that follow one another. -/
theorem expandFrom_append (read : String → List Token) (t : Token) (skip : Nat)
    (parts rest : List Segment) :
    expandFrom read t skip (parts ++ rest) =
      expandFrom read t skip parts ++
        expandFrom read t (skip + Text.byteCount (parts.flatMap Segment.text)) rest := by
  induction parts generalizing skip with
  | nil => rfl
  | cons part parts ih =>
    simp only [List.cons_append, expandFrom, ih, List.flatMap_cons, Text.byteCount_append,
      List.append_assoc, Nat.add_assoc]

/-- The tokens of the first part come before those of the others. -/
theorem expandFrom_cons (read : String → List Token) (t : Token) (skip : Nat) (part : Segment)
    (rest : List Segment) :
    expandFrom read t skip (part :: rest) =
      expandFrom read t skip [part] ++
        expandFrom read t (skip + Text.byteCount part.text) rest := by
  rw [← List.singleton_append, expandFrom_append, List.flatMap_singleton]

/-- What a part of a rich string becomes is faithful to the source, if it is so to the part. -/
theorem isPieceOf_shifted {u : Token} {code : List Char} {d : Offset} {stop : Nat}
    (hcode : Text.IsPiece whole d.toNat stop code) (hu : u.IsPieceOf code)
    (hstart : (u.shifted d).span.start.toNat = d.toNat + u.span.start.toNat)
    (hstop : (u.shifted d).span.stop.toNat = d.toNat + u.span.stop.toNat) :
    (u.shifted d).IsPieceOf whole := by
  rw [Token.IsPieceOf, hstart, hstop]
  exact hcode.trans hu

/-- The tokens of an interpolation account for the place of its code in the source. -/
theorem tiles_map_shifted {code : List Char} {start skip : Nat} {a : Offset}
    (hstart : start = a.toNat + skip)
    (hcode : Text.IsPiece whole start (start + Text.byteCount code) code)
    (htop : Text.byteCount whole ≤ Offset.top) {tokens : List Token}
    (htokens : Tiles (fun x => spare (start + x)) (Token.IsPieceOf code) 0 (Text.byteCount code)
      tokens) :
    Tiles spare (Token.IsPieceOf whole) start (start + Text.byteCount code)
      (tokens.map (·.shifted (a.plus skip))) := by
  have hle := hcode.stop_le
  have hplace : (a.plus skip).toNat = start :=
    (Offset.toNat_plus_of_le (by omega)).trans hstart.symm
  have h : Tiles spare (Token.IsPieceOf whole) ((a.plus skip).toNat + 0)
      ((a.plus skip).toNat + Text.byteCount code) (tokens.map (·.shifted (a.plus skip))) := by
    refine htokens.shifted (a.plus skip) (by omega) (by rw [hplace]; exact fun _ hx => hx) ?_
    intro u _ hu hstart hstop
    exact isPieceOf_shifted (by rw [hplace]; exact hcode) hu hstart hstop
  rwa [hplace, Nat.add_zero] at h

/-- The tokens of the parts that follow `done` in a rich string account for the rest of its span. -/
theorem tiles_expandFrom (ht : t.IsPieceOf whole) (htop : Text.byteCount whole ≤ Offset.top)
    (done : List Char) {parts : List Segment}
    (htext : t.text.toList = done ++ parts.flatMap Segment.text)
    (hread : ∀ c ∈ codesFrom (Text.byteCount done) parts,
      Tiles (fun x => spare (t.span.start.toNat + c.1 + x)) (Token.IsPieceOf c.2) 0
        (Text.byteCount c.2) (read (String.ofList c.2))) :
    Tiles spare (Token.IsPieceOf whole) (t.span.start.toNat + Text.byteCount done)
      t.span.stop.toNat (expandFrom read t (Text.byteCount done) parts) := by
  induction parts generalizing done with
  | nil =>
    have hstop := ht.stop_eq
    rw [htext, List.flatMap_nil, List.append_nil] at hstop
    rw [hstop]
    exact .nil (.refl _)
  | cons part rest ih =>
    have hdone : Text.byteCount (done ++ part.text) =
        Text.byteCount done + Text.byteCount part.text := Text.byteCount_append ..
    have hsplit : t.text.toList = done ++ (part.text ++ rest.flatMap Segment.text) := by
      rw [htext, List.flatMap_cons]
    -- The part is a piece of the rich string, and so of the source.
    have hpart : Text.IsPiece whole (t.span.start.toNat + Text.byteCount done)
        (t.span.start.toNat + Text.byteCount done + Text.byteCount part.text) part.text := by
      have hpiece := ht.trans (hsplit ▸ Text.IsPiece.of_append done part.text _)
      rwa [← Nat.add_assoc] at hpiece
    have hfits : t.span.start.toNat + Text.byteCount done + Text.byteCount part.text ≤
        t.span.stop.toNat := by
      have hstop := ht.stop_eq
      rw [hsplit, Text.byteCount_append, Text.byteCount_append] at hstop
      omega
    have hrest : ∀ c ∈ codesFrom (Text.byteCount (done ++ part.text)) rest,
        c ∈ codesFrom (Text.byteCount done) (part :: rest) := by
      intro c hc
      rw [hdone] at hc
      cases part with
      | chunk kind text => exact hc
      | code text => exact List.mem_cons_of_mem _ hc
    have htail := ih (done ++ part.text) (by rw [hsplit, List.append_assoc])
      fun c hc => hread c (hrest c hc)
    rw [hdone, ← Nat.add_assoc] at htail
    refine Tiles.append ?_ htail
    cases part with
    | chunk kind text =>
      have hstart := t.span.toNat_start_slice (Text.byteCount text)
        (Nat.le_trans (Nat.le_add_right _ _) hfits)
      have hstop := t.span.toNat_stop_slice hfits
      have hgood : Token.IsPieceOf whole
          { kind := kind, text := String.ofList text,
            span := t.span.slice (Text.byteCount done) (Text.byteCount text) } := by
        simp only [Token.IsPieceOf, Segment.text] at hstart hstop hpart ⊢
        rwa [hstart, hstop, String.toList_ofList]
      have hsingle : Tiles spare (Token.IsPieceOf whole) _ _ _ :=
        .single hgood.start_le_stop hgood
      simp only [Segment.text] at hsingle hstart hstop ⊢
      rwa [hstart, hstop] at hsingle
    | code text =>
      refine tiles_map_shifted rfl hpart htop ?_
      exact hread (Text.byteCount done, text) List.mem_cons_self

/-- The tokens that stand for a rich string account for its span. -/
theorem tiles_expand (ht : t.IsPieceOf whole) (htop : Text.byteCount whole ≤ Offset.top)
    (hread : ∀ c ∈ bodies t.text.toList,
      Tiles (fun x => spare (t.span.start.toNat + c.1 + x)) (Token.IsPieceOf c.2) 0
        (Text.byteCount c.2) (read (String.ofList c.2))) :
    Tiles spare (Token.IsPieceOf whole) t.span.start.toNat t.span.stop.toNat (expand read t) := by
  rw [← codesFrom_segments] at hread
  exact tiles_expandFrom ht htop [] (flatMap_text_segments _).symm hread

end Rich

namespace Stage

/-- Rich strings are replaced one by one, and other tokens are kept. -/
theorem apply_interpolation (read : String → List Token) (ts : List Token) :
    (interpolation read).apply ts =
      ts.flatMap fun t => if t.kind = .richString then Rich.expand read t else [t] :=
  apply_eq_flatMap (fun _ _ _ _ => rfl) (fun _ _ => rfl) ts

end Stage

end ScriptReader
