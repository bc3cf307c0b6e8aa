import ScriptReader.Text.Bytes

/-!
# Pieces of a text

A stretch of bytes of a text is the UTF-8 form of some characters only if it begins and ends between
characters.  This module speaks of such stretches through the characters before and after them, so
that byte counts add up and no character is ever looked into.

## Main Definitions

* `Text.IsPiece` — the characters between two byte offsets of a text

## Main Statements

* `Text.byteCount_toList` — bytes are counted as those of the UTF-8 form
* `Text.IsPiece.trans` — a piece of a piece is a piece, at the sum of the offsets
* `Text.IsPiece.slice?_eq` — a piece is what cutting the text at its offsets gives
* `Text.IsPiece.isValid_start`, `Text.IsPiece.isValid_stop` — a piece begins and ends at boundaries
-/

namespace ScriptReader.Text

/-! ## Counting bytes -/

theorem byteCount_eq_utf8ByteSize (cs : List Char) :
    byteCount cs = (String.ofList cs).utf8ByteSize := by
  induction cs with
  | nil => simp
  | cons c cs ih =>
    have split : String.ofList (c :: cs) = String.singleton c ++ String.ofList cs := by
      rw [String.singleton_eq_ofList, ← String.ofList_append]
      rfl
    rw [byteCount_cons, ih, split, String.utf8ByteSize_append, String.utf8ByteSize_singleton]

@[simp] theorem byteCount_toList (s : String) : byteCount s.toList = s.utf8ByteSize := by
  rw [byteCount_eq_utf8ByteSize, String.ofList_toList]

theorem utf8ByteSize_ofList (cs : List Char) :
    (String.ofList cs).utf8ByteSize = byteCount cs :=
  (byteCount_eq_utf8ByteSize cs).symm

/-! ## Pieces -/

/-- `piece` is what `whole` holds from byte `start` up to byte `stop`. -/
def IsPiece (whole : List Char) (start stop : Nat) (piece : List Char) : Prop :=
  ∃ before after, whole = before ++ (piece ++ after) ∧
    start = byteCount before ∧ stop = byteCount before + byteCount piece

namespace IsPiece

variable {whole piece part : List Char} {start stop a b : Nat}

theorem of_append (before piece after : List Char) :
    IsPiece (before ++ (piece ++ after)) (byteCount before)
      (byteCount before + byteCount piece) piece :=
  ⟨before, after, rfl, rfl, rfl⟩

theorem start_le_stop (h : IsPiece whole start stop piece) : start ≤ stop := by
  obtain ⟨before, after, -, rfl, rfl⟩ := h
  exact Nat.le_add_right _ _

theorem stop_eq (h : IsPiece whole start stop piece) : stop = start + byteCount piece := by
  obtain ⟨before, after, -, rfl, rfl⟩ := h
  rfl

theorem stop_le (h : IsPiece whole start stop piece) : stop ≤ byteCount whole := by
  obtain ⟨before, after, rfl, -, rfl⟩ := h
  simp only [byteCount_append]
  omega

/-- Offsets into a piece are counted from where the piece begins. -/
theorem trans (h : IsPiece whole start stop piece) (hpart : IsPiece piece a b part) :
    IsPiece whole (start + a) (start + b) part := by
  obtain ⟨before, after, rfl, rfl, rfl⟩ := h
  obtain ⟨before', after', rfl, rfl, rfl⟩ := hpart
  refine ⟨before ++ before', after' ++ after, by simp, by simp, ?_⟩
  rw [byteCount_append, Nat.add_assoc]

/-- No text stands at the very start of a text. -/
theorem nil_zero (whole : List Char) : IsPiece whole 0 0 [] :=
  ⟨[], whole, rfl, rfl, rfl⟩

/-- No text stands where a piece begins. -/
theorem nil_start (h : IsPiece whole start stop piece) : IsPiece whole start start [] := by
  obtain ⟨before, after, rfl, rfl, -⟩ := h
  exact ⟨before, piece ++ after, rfl, rfl, rfl⟩

/-- No text stands where a piece ends. -/
theorem nil_stop (h : IsPiece whole start stop piece) : IsPiece whole stop stop [] := by
  obtain ⟨before, after, rfl, -, rfl⟩ := h
  exact ⟨before ++ piece, after, by simp, by simp, by simp⟩

/-! ### Pieces of strings -/

theorem slice?_eq {s : String} (h : IsPiece s.toList start stop piece) :
    slice? s start stop = some (String.ofList piece) := by
  obtain ⟨before, after, hs, rfl, rfl⟩ := h
  simp [slice?, hs, dropBytes?_append, takeBytes?_append]

theorem isValid_start {s : String} (h : IsPiece s.toList start stop piece) :
    (⟨start⟩ : String.Pos.Raw).IsValid s := by
  obtain ⟨before, after, hs, rfl, -⟩ := h
  refine String.Pos.Raw.isValid_iff_exists_append.2
    ⟨String.ofList before, String.ofList (piece ++ after), ?_, ?_⟩
  · rw [← String.ofList_append, ← hs, String.ofList_toList]
  · rw [String.Pos.Raw.ext_iff]
    exact byteCount_eq_utf8ByteSize before

theorem isValid_stop {s : String} (h : IsPiece s.toList start stop piece) :
    (⟨stop⟩ : String.Pos.Raw).IsValid s :=
  h.nil_stop.isValid_start

end IsPiece

end ScriptReader.Text
