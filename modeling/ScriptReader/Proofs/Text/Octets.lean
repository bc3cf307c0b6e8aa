import ScriptReader.Proofs.Text.Pieces

/-!
# The bytes of a text

Some things are said of a text byte by byte.  This module spells the bytes of a text out, tells
those of ASCII characters from all others, and finds what is left of a text after a number of them.

## Main Statements

* `Text.toUInt8_inj` — ASCII characters are told apart by their byte
* `Text.le_of_mem_utf8EncodeChar` — no byte of another character is that of an ASCII character
* `Text.bytes_drop_of_dropBytes?` — what is left of a text is what is left of its bytes
* `Text.dropBytes?_eq_none_iff` — nothing is left only if the offset lies inside of a character or
  past the end
-/

namespace ScriptReader.Text

variable {s : String} {c d : Char} {b : UInt8} {cs rest taken : List Char} {n : Nat}

/-! ## Bytes of characters -/

theorem bytes_ofList (cs : List Char) : bytes (.ofList cs) = cs.flatMap String.utf8EncodeChar := by
  rw [bytes, String.toByteArray_ofList, List.utf8Encode, List.toList_data_toByteArray]

theorem bytes_ofList_cons (c : Char) (cs : List Char) :
    bytes (.ofList (c :: cs)) = String.utf8EncodeChar c ++ bytes (.ofList cs) := by
  simp only [bytes_ofList, List.flatMap_cons]

theorem bytes_ofList_append (cs ds : List Char) :
    bytes (.ofList (cs ++ ds)) = bytes (.ofList cs) ++ bytes (.ofList ds) := by
  simp only [bytes_ofList, List.flatMap_append]

theorem length_bytes_ofList (cs : List Char) : (bytes (.ofList cs)).length = byteCount cs := by
  induction cs with
  | nil => rfl
  | cons c cs ih =>
    rw [bytes_ofList_cons, List.length_append, String.length_utf8EncodeChar, ih, byteCount_cons]

theorem length_bytes (s : String) : (bytes s).length = s.utf8ByteSize := by
  rw [← byteCount_toList, ← length_bytes_ofList, String.ofList_toList]

/-! ## ASCII characters -/

theorem utf8EncodeChar_of_ascii (hc : c.toNat < 128) : String.utf8EncodeChar c = [c.toUInt8] := by
  have hval : c.val.toNat ≤ 127 := Nat.le_of_lt_succ hc
  simp only [String.utf8EncodeChar, if_pos hval]
  rfl

theorem toUInt8_inj (hc : c.toNat < 128) (hd : d.toNat < 128) :
    c.toUInt8 = d.toUInt8 ↔ c = d := by
  refine ⟨fun h => ?_, congrArg Char.toUInt8⟩
  have hmod : c.toNat % 256 = d.toNat % 256 := congrArg UInt8.toNat h
  exact Char.toNat_inj.1 (by omega)

theorem le_toNat_ofNat {v : Nat} (hle : 128 ≤ v) (hlt : v < 256) : 128 ≤ (UInt8.ofNat v).toNat := by
  rw [UInt8.toNat_ofNat', Nat.mod_eq_of_lt hlt]
  exact hle

/-- The bytes of a character beyond ASCII all have their highest bit set. -/
theorem le_of_mem_utf8EncodeChar (hc : ¬ c.toNat < 128) (hb : b ∈ String.utf8EncodeChar c) :
    128 ≤ b.toNat := by
  have hval : ¬ c.val.toNat ≤ 127 := fun h => hc (Nat.lt_succ_of_le h)
  simp only [String.utf8EncodeChar, if_neg hval] at hb
  -- Two, three or four bytes: the first begins with as many set bits, the others with just one.
  split at hb
  case isTrue =>
    simp only [List.mem_cons, List.not_mem_nil, or_false] at hb
    rcases hb with rfl | rfl <;> exact le_toNat_ofNat (by omega) (by omega)
  case isFalse =>
    split at hb
    case isTrue =>
      simp only [List.mem_cons, List.not_mem_nil, or_false] at hb
      rcases hb with rfl | rfl | rfl <;> exact le_toNat_ofNat (by omega) (by omega)
    case isFalse =>
      simp only [List.mem_cons, List.not_mem_nil, or_false] at hb
      rcases hb with rfl | rfl | rfl | rfl <;> exact le_toNat_ofNat (by omega) (by omega)

/-! ## What is left after some bytes -/

theorem bytes_drop_append (cs ds : List Char) :
    (bytes (.ofList (cs ++ ds))).drop (byteCount cs) = bytes (.ofList ds) := by
  rw [bytes_ofList_append, ← length_bytes_ofList, List.drop_left]

theorem exists_append_of_dropBytes? (h : dropBytes? n cs = some rest) :
    ∃ before, cs = before ++ rest ∧ byteCount before = n := by
  fun_induction dropBytes? n cs with
  | case1 cs => exact ⟨[], by simpa using h, rfl⟩
  | case2 => cases h
  | case3 n c cs hsize ih =>
    obtain ⟨before, rfl, hbefore⟩ := ih h
    exact ⟨c :: before, rfl, by rw [byteCount_cons, hbefore]; omega⟩
  | case4 => cases h

theorem exists_append_of_takeBytes? (h : takeBytes? n cs = some taken) :
    ∃ after, cs = taken ++ after ∧ byteCount taken = n := by
  fun_induction takeBytes? n cs generalizing taken with
  | case1 cs =>
    cases h
    exact ⟨cs, rfl, rfl⟩
  | case2 => cases h
  | case3 n c cs hsize ih =>
    obtain ⟨rest, hrest, rfl⟩ := Option.map_eq_some_iff.1 h
    obtain ⟨after, rfl, hcount⟩ := ih hrest
    exact ⟨after, rfl, by rw [byteCount_cons, hcount]; omega⟩
  | case4 => cases h

/-- What is left of a text is what is left of its bytes. -/
theorem bytes_drop_of_dropBytes? (h : dropBytes? n s.toList = some rest) :
    (bytes s).drop n = bytes (.ofList rest) := by
  obtain ⟨before, hs, rfl⟩ := exists_append_of_dropBytes? h
  rw [← String.ofList_toList (s := s), hs, bytes_drop_append]

/-- What stands before a boundary. -/
theorem exists_append_of_isValid (h : (⟨n⟩ : String.Pos.Raw).IsValid s) :
    ∃ before after, s.toList = before ++ after ∧ byteCount before = n := by
  obtain ⟨s₁, s₂, rfl, hn⟩ := String.Pos.Raw.isValid_iff_exists_append.1 h
  refine ⟨s₁.toList, s₂.toList, String.toList_append, ?_⟩
  rw [byteCount_toList]
  exact (congrArg String.Pos.Raw.byteIdx hn).symm

/-- A text has nothing left from an offset on just if no character begins or ends there. -/
theorem dropBytes?_eq_none_iff :
    dropBytes? n s.toList = none ↔ ¬ (⟨n⟩ : String.Pos.Raw).IsValid s := by
  refine ⟨fun hnone hvalid => ?_, fun hvalid => ?_⟩
  · obtain ⟨before, after, hs, rfl⟩ := exists_append_of_isValid hvalid
    rw [hs, dropBytes?_append] at hnone
    cases hnone
  · cases hdrop : dropBytes? n s.toList with
    | none => rfl
    | some rest =>
      obtain ⟨before, hs, rfl⟩ := exists_append_of_dropBytes? hdrop
      have hpiece : IsPiece s.toList (byteCount before) _ rest :=
        ⟨before, [], by simpa using hs, rfl, rfl⟩
      exact absurd hpiece.isValid_start hvalid

end ScriptReader.Text
