import Mathlib.Data.String.Basic
import Mathlib.Order.Bounds.Basic
import ScriptReader.Proofs.Source.Position
import ScriptReader.Proofs.Text.Octets
import ScriptReader.Source.LineMap

/-!
# Looking positions up

A line map finds the line of an offset by binary search among the offsets at which lines start, and
its column in the piece of the source between there and the offset.  Whatever the offset, there is
such a line and such a piece, and the position found is the one after the source up to the offset.

## Main Definitions

* `Text.IsUpTo` — what a text holds up to an offset
* `LineMap.Scans` — a line map answers as if the source were read anew for each offset

## Main Statements

* `partitionPoint_append` — binary search finds the entry from which on a test fails
* `Text.exists_isUpTo_floorBoundary` — steps back lead to the end of what a text holds up to an
  offset
* `Text.IsPiece.cut?_eq` — a piece is what is cut out of a text where it begins and ends
* `LineMap.getLast?_lineStartsOf` — the last line of a text starts after its last line break
* `LineMap.exists_position?_eq` — a line map finds the position after the source up to an offset
* `LineMap.position_le_position` — a line map keeps the order of offsets
* `LineMap.default_le_position` — nothing stands before the start of a source
* `LineMap.scans_ofSourceWith` — a line map answers as if the source were read anew

## Design Notes

The lines that start in a text are those that start in the first part of it, and then those that
start later.  With what is up to the offset as the first part, binary search stops between the two,
and the last entry before that is where the last line of the first part starts.
-/

namespace ScriptReader

/-! ## Binary search -/

section PartitionPoint

variable {α : Type} {test : α → Bool}

/-- Binary search finds the entry from which on a test fails, if it stands between the places that
are searched. -/
theorem partitionPointIn_eq {xs : Array α} {n lo hi : Nat} (hhi : hi ≤ xs.size) (hlo : lo ≤ n)
    (hn : n ≤ hi) (htest : ∀ i (hi : i < xs.size), test xs[i] = true ↔ i < n) :
    partitionPointIn test xs lo hi hhi = n := by
  fun_induction partitionPointIn test xs lo hi hhi with
  | case1 lo hi hhi hlt hmid ih => exact ih ((htest _ _).1 hmid) hn
  | case2 lo hi hhi hlt hmid ih => exact ih hlo (Nat.not_lt.1 fun h => hmid ((htest _ _).2 h))
  | case3 lo hi hhi hlt => omega

/-- Binary search finds the entry from which on a test fails. -/
theorem partitionPoint_append {xs ys : List α} (hxs : ∀ x ∈ xs, test x = true)
    (hys : ∀ y ∈ ys, test y = false) : partitionPoint test (xs ++ ys).toArray = xs.length := by
  refine partitionPointIn_eq _ (Nat.zero_le _) (by simp) fun i hi => ?_
  rw [List.getElem_toArray]
  rcases Nat.lt_or_ge i xs.length with hlt | hge
  · rw [List.getElem_append_left hlt]
    exact iff_of_true (hxs _ (List.getElem_mem hlt)) hlt
  · rw [List.getElem_append_right hge, hys _ (List.getElem_mem _)]
    exact iff_of_false Bool.false_ne_true (Nat.not_lt.2 hge)

end PartitionPoint

namespace Text

variable {s : String} {b : UInt8} {n m i : Nat} {cs ds : List Char}

/-! ## Where a byte occurs -/

theorem placesFrom_append (b : UInt8) (n : Nat) (xs ys : List UInt8) :
    placesFrom b n (xs ++ ys) = placesFrom b n xs ++ placesFrom b (n + xs.length) ys := by
  induction xs generalizing n with
  | nil => rfl
  | cons x xs ih =>
    rw [List.cons_append, placesFrom, placesFrom, ih, List.length_cons, Nat.add_right_comm n 1,
      Nat.add_assoc n]
    split <;> rfl

theorem length_placesFrom (b : UInt8) (n : Nat) (xs : List UInt8) :
    (placesFrom b n xs).length = xs.count b := by
  induction xs generalizing n with
  | nil => rfl
  | cons x xs ih =>
    rw [placesFrom]
    split
    case isTrue hx => rw [List.length_cons, ih, hx, List.count_cons_self]
    case isFalse hx => rw [ih, List.count_cons_of_ne hx]

theorem placesFrom_eq_nil {xs : List UInt8} (h : b ∉ xs) (n : Nat) : placesFrom b n xs = [] :=
  List.length_eq_zero_iff.1 ((length_placesFrom b n xs).trans (List.count_eq_zero.2 h))

theorem le_and_lt_of_mem_placesFrom {xs : List UInt8} (h : i ∈ placesFrom b n xs) :
    n ≤ i ∧ i < n + xs.length := by
  induction xs generalizing n with
  | nil => cases h
  | cons x xs ih =>
    have hrest (h : i ∈ placesFrom b (n + 1) xs) : n ≤ i ∧ i < n + (x :: xs).length := by
      have := ih h
      rw [List.length_cons]
      omega
    rw [placesFrom] at h
    split at h
    case isFalse => exact hrest h
    case isTrue =>
      rcases List.mem_cons.1 h with rfl | h
      · exact ⟨Nat.le_refl _, Nat.lt_add_of_pos_right (Nat.succ_pos _)⟩
      · exact hrest h

/-! ## Line breaks among bytes -/

theorem count_utf8EncodeChar_newline (c : Char) :
    (String.utf8EncodeChar c).count '\n'.toUInt8 = if c = '\n' then 1 else 0 := by
  by_cases hc : c.toNat < 128
  · rw [utf8EncodeChar_of_ascii hc, List.count_singleton]
    simp only [beq_iff_eq, toUInt8_inj hc (by decide : '\n'.toNat < 128)]
  · have hne : c ≠ '\n' := by
      rintro rfl
      exact hc (by decide)
    rw [if_neg hne, List.count_eq_zero]
    intro hmem
    exact absurd (le_of_mem_utf8EncodeChar hc hmem) (by decide)

/-- Line breaks are counted alike among bytes and among characters. -/
theorem count_bytes_newline (cs : List Char) :
    (bytes (.ofList cs)).count '\n'.toUInt8 = cs.count '\n' := by
  induction cs with
  | nil => rfl
  | cons c cs ih =>
    rw [bytes_ofList_cons, List.count_append, ih, count_utf8EncodeChar_newline, List.count_cons,
      Nat.add_comm]
    simp only [beq_iff_eq]

/-! ## Cutting a text -/

/-- A piece is what is cut out of a text where it begins and ends. -/
theorem IsPiece.cut?_eq {start stop : Nat} (h : IsPiece s.toList start stop cs) :
    cut? s start stop = some (.ofList cs) := by
  have hcount (ds : List Char) : String.utf8Len ds = byteCount ds := by
    rw [← String.utf8ByteSize_ofList, utf8ByteSize_ofList]
  have hstart := String.Pos.Raw.isValid_eq_true_iff.2 h.isValid_start
  have hstop := String.Pos.Raw.isValid_eq_true_iff.2 h.isValid_stop
  rw [cut?, if_pos ⟨hstart, hstop, h.start_le_stop⟩]
  obtain ⟨before, after, hs, rfl, rfl⟩ := h
  rw [← String.ofList_toList (s := s), hs, ← List.append_assoc, ← hcount, ← hcount,
    String.extract_of_valid]

/-! ## Texts up to an offset -/

/-- The characters `before` are what a text holds up to the greatest boundary of characters that is
not after byte `n`. -/
structure IsUpTo (s : String) (n : Nat) (before : List Char) : Prop where
  /-- The text begins with them. -/
  isPrefix : before <+: s.toList
  /-- They end at that boundary. -/
  isGreatest : IsGreatest {m | (⟨m⟩ : String.Pos.Raw).IsValid s ∧ m ≤ n} (byteCount before)

/-- The characters up to an offset have the bytes up to where they end. -/
theorem IsUpTo.take_bytes {s : String} {n : Nat} {before : List Char} (h : IsUpTo s n before) :
    (bytes s).take (byteCount before) = bytes (.ofList before) := by
  obtain ⟨after, hs⟩ := h.isPrefix
  rw [← String.ofList_toList (s := s), ← hs, bytes_ofList_append, ← length_bytes_ofList,
    List.take_left]

/-- Steps back lead to the last boundary that is not after an offset. -/
theorem isGreatest_floorBoundary (s : String) (n : Nat) :
    IsGreatest {m | (⟨m⟩ : String.Pos.Raw).IsValid s ∧ m ≤ n} (floorBoundary s n) := by
  induction n with
  | zero => exact ⟨⟨String.Pos.Raw.isValid_zero, Nat.le_refl _⟩, fun m hm => hm.2⟩
  | succ n ih =>
    rw [floorBoundary]
    split
    case isTrue hvalid =>
      exact ⟨⟨String.Pos.Raw.isValid_eq_true_iff.1 hvalid, Nat.le_refl _⟩, fun m hm => hm.2⟩
    case isFalse hvalid =>
      refine ⟨⟨ih.1.1, Nat.le_succ_of_le ih.1.2⟩, fun m ⟨hm, hle⟩ => ih.2 ⟨hm, ?_⟩⟩
      refine Nat.le_of_lt_succ (Nat.lt_of_le_of_ne hle ?_)
      rintro rfl
      exact hvalid (String.Pos.Raw.isValid_eq_true_iff.2 hm)

/-- Steps back lead to the end of what a text holds up to an offset. -/
theorem exists_isUpTo_floorBoundary (s : String) (n : Nat) :
    ∃ before, IsUpTo s n before ∧ floorBoundary s n = byteCount before := by
  have hgreatest := isGreatest_floorBoundary s n
  obtain ⟨before, after, hs, hbefore⟩ := exists_append_of_isValid hgreatest.1.1
  exact ⟨before, ⟨hs ▸ List.prefix_append before after, hbefore.symm ▸ hgreatest⟩, hbefore.symm⟩

theorem eq_nil_of_byteCount_eq_zero (h : byteCount cs = 0) : cs = [] := by
  cases cs with
  | nil => rfl
  | cons c cs =>
    have hpos := c.utf8Size_pos
    rw [byteCount_cons] at h
    omega

/-- A text holds more up to a later offset. -/
theorem IsUpTo.isPrefix_of_le (h : IsUpTo s n cs) (h' : IsUpTo s m ds) (hle : n ≤ m) :
    cs <+: ds := by
  have hcount : byteCount cs ≤ byteCount ds :=
    h'.isGreatest.2 ⟨h.isGreatest.1.1, Nat.le_trans h.isGreatest.1.2 hle⟩
  rcases List.prefix_or_prefix_of_prefix h.isPrefix h'.isPrefix with hprefix | ⟨more, rfl⟩
  · exact hprefix
  · rw [byteCount_append] at hcount
    obtain rfl : more = [] := eq_nil_of_byteCount_eq_zero (by omega)
    simp

end Text

/-! ## Line maps -/

namespace LineMap

variable {width : Char → Option Nat} {source : String} {p : Position} {cs : List Char}

theorem columns_ofList (width : Char → Option Nat) (cs : List Char) :
    columns width (.ofList cs) = (cs.map fun c => (width c).getD 1).sum := by
  rw [columns, String.toList_ofList, List.sum_eq_foldl, List.foldl_map]

theorem lineStartsOf_append (xs ys : List UInt8) :
    lineStartsOf (xs ++ ys) =
      lineStartsOf xs ++ (Text.placesFrom '\n'.toUInt8 xs.length ys).map (· + 1) := by
  rw [lineStartsOf, lineStartsOf, Text.placesFrom_append, Nat.zero_add, List.map_append,
    List.cons_append]

theorem length_lineStartsOf (bs : List UInt8) :
    (lineStartsOf bs).length = 1 + bs.count '\n'.toUInt8 := by
  rw [lineStartsOf, List.length_cons, List.length_map, Text.length_placesFrom, Nat.add_comm]

/-- No line of a text starts after its end. -/
theorem le_of_mem_lineStartsOf {bs : List UInt8} {start : Nat} (h : start ∈ lineStartsOf bs) :
    start ≤ bs.length := by
  rcases List.mem_cons.1 h with rfl | h
  · exact Nat.zero_le _
  · obtain ⟨i, hi, rfl⟩ := List.mem_map.1 h
    have := Text.le_and_lt_of_mem_placesFrom hi
    omega

/-- Binary search up to the end of the first part of a text finds the lines that start there. -/
theorem partitionPoint_lineStartsOf (xs ys : List UInt8) :
    partitionPoint (· ≤ xs.length) (lineStartsOf (xs ++ ys)).toArray =
      (lineStartsOf xs).length := by
  rw [lineStartsOf_append]
  refine partitionPoint_append (fun start h => decide_eq_true (le_of_mem_lineStartsOf h)) ?_
  intro start h
  obtain ⟨i, hi, rfl⟩ := List.mem_map.1 h
  have := Text.le_and_lt_of_mem_placesFrom hi
  exact decide_eq_false (by omega)

/-- The last line of a text starts after its last line break. -/
theorem getLast?_lineStartsOf (cs : List Char) :
    (lineStartsOf (Text.bytes (.ofList cs))).getLast? =
      some (Text.byteCount (cs.rdropWhile (· ≠ '\n'))) := by
  induction cs using List.reverseRecOn with
  | nil => rfl
  | append_singleton cs c ih =>
    rw [Text.bytes_ofList_append, lineStartsOf_append, Text.length_bytes_ofList]
    by_cases hc : c = '\n'
    · subst hc
      rw [List.rdropWhile_concat_neg _ _ _ (by simp), Text.byteCount_append]
      exact List.getLast?_concat
    · have hnone : '\n'.toUInt8 ∉ Text.bytes (.ofList [c]) := by
        rw [← List.count_eq_zero, Text.count_bytes_newline, List.count_eq_zero]
        simpa using Ne.symm hc
      rw [List.rdropWhile_concat_pos _ _ _ (by simpa using hc), Text.placesFrom_eq_nil hnone,
        List.map_nil, List.append_nil, ih]

/-- **A line map finds the position after the source up to an offset**, or after the whole source if
the offset is past its end. -/
theorem exists_position?_eq (width : Char → Option Nat) (source : String) (offset : Offset) :
    ∃ before, Text.IsUpTo source (min offset.toNat source.utf8ByteSize) before ∧
      (ofSourceWith width source).position? offset =
        some (.scanned width ((Text.bytes (.ofList before)).count '\n'.toUInt8) before) := by
  obtain ⟨before, hbefore, hstop⟩ :=
    Text.exists_isUpTo_floorBoundary source (min offset.toNat source.utf8ByteSize)
  refine ⟨before, hbefore, ?_⟩
  obtain ⟨after, hs⟩ := hbefore.isPrefix
  obtain ⟨front, hfront⟩ : ∃ front, front = before.rdropWhile (· ≠ '\n') := ⟨_, rfl⟩
  obtain ⟨line, hline⟩ : ∃ line, line = before.rtakeWhile (· ≠ '\n') := ⟨_, rfl⟩
  have hsplit : front ++ line = before := by
    rw [hfront, hline]
    exact List.rdropWhile_append_rtakeWhile
  have hbytes : Text.bytes source = Text.bytes (.ofList before) ++ Text.bytes (.ofList after) := by
    rw [← Text.bytes_ofList_append, hs, String.ofList_toList]
  have hfound : partitionPoint (· ≤ Text.byteCount before)
      (ofSourceWith width source).lineStarts =
        (lineStartsOf (Text.bytes (.ofList before))).length := by
    rw [ofSourceWith, hbytes, ← Text.length_bytes_ofList, partitionPoint_lineStartsOf]
  have hstart : (ofSourceWith width source).lineStarts[
      (lineStartsOf (Text.bytes (.ofList before))).length - 1]? = some (Text.byteCount front) := by
    rw [ofSourceWith, List.getElem?_toArray, hbytes, lineStartsOf_append,
      List.getElem?_append_left (by rw [length_lineStartsOf]; omega), ← List.getLast?_eq_getElem?,
      getLast?_lineStartsOf, hfront]
  have hpiece : Text.IsPiece source.toList (Text.byteCount front) (Text.byteCount before) line :=
    ⟨front, after, by rw [← hs, ← hsplit, List.append_assoc], rfl,
      by rw [← hsplit, Text.byteCount_append]⟩
  rw [position?, show (ofSourceWith width source).source = source from rfl, hstop, hfound, hstart,
    Option.bind_some, hpiece.cut?_eq, Option.map_some, length_lineStartsOf, columns_ofList, hline]
  rfl

/-- The position of an offset is the one after the text up to it. -/
theorem exists_position_eq (width : Char → Option Nat) (source : String) (offset : Offset) :
    ∃ before, Text.IsUpTo source (min offset.toNat source.utf8ByteSize) before ∧
      (ofSourceWith width source).position offset =
        before.foldl (Position.after width) default := by
  obtain ⟨before, hbefore, hposition⟩ := exists_position?_eq width source offset
  refine ⟨before, hbefore, ?_⟩
  rw [position, hposition, Option.getD_some, Position.foldl_after_default, Text.count_bytes_newline]

/-- The characters up to an offset do not need more lines than can be counted. -/
theorem fits_of_isUpTo {offset : Offset}
    (h : Text.IsUpTo source (min offset.toNat source.utf8ByteSize) cs) :
    (default : Position).Fits cs := by
  have hle := h.isGreatest.1.2
  have htop := Offset.toNat_le_top offset
  exact Position.fits_default (by omega)

/-- **A line map keeps the order of offsets.** -/
theorem position_le_position {a b : Offset} (hab : a.toNat ≤ b.toNat) :
    (ofSourceWith width source).position a ≤ (ofSourceWith width source).position b := by
  obtain ⟨cs, hcs, ha⟩ := exists_position_eq width source a
  obtain ⟨ds, hds, hb⟩ := exists_position_eq width source b
  obtain ⟨more, rfl⟩ := hcs.isPrefix_of_le hds (by omega)
  rw [ha, hb, List.foldl_append]
  exact (fits_of_isUpTo hds).foldl_after.le_foldl_after

/-- Nothing stands before the start of a source. -/
theorem default_le_position (a : Offset) :
    default ≤ (ofSourceWith width source).position a := by
  obtain ⟨cs, hcs, ha⟩ := exists_position_eq width source a
  rw [ha]
  exact (fits_of_isUpTo hcs).le_foldl_after

/-! ### Reading anew -/

/-- A line map answers as if the source were read anew for each offset. -/
structure Scans (l : LineMap) (width : Char → Option Nat) (source : String) : Prop where
  /-- The line of an offset can be found, and cut out of the source. -/
  found : ∀ offset, l.position? offset = some (l.position offset)
  /-- An offset has the position that is found by reading the source up to the last boundary of
  characters that is not after it, and all of the source if the offset is past its end. -/
  position : ∀ offset, ∃ before,
    Text.IsUpTo source (min offset.toNat source.utf8ByteSize) before ∧
    l.position offset =
      .scanned width (((Text.bytes source).take (Text.byteCount before)).count '\n'.toUInt8) before
  /-- Later offsets have later positions. -/
  ordered : ∀ a b, a ≤ b → l.position a ≤ l.position b
  /-- What does not end before it starts has a location that does not either. -/
  locationOf : ∀ s : Span, s.start ≤ s.stop → (l.locationOf s).start ≤ (l.locationOf s).stop

/-- **A line map answers as if the source were read anew**, whatever columns characters take. -/
theorem scans_ofSourceWith (width : Char → Option Nat) (source : String) :
    (ofSourceWith width source).Scans width source where
  found offset := by
    obtain ⟨_, _, hposition⟩ := exists_position?_eq width source offset
    rw [LineMap.position, hposition, Option.getD_some]
  position offset := by
    obtain ⟨before, hbefore, hposition⟩ := exists_position?_eq width source offset
    refine ⟨before, hbefore, ?_⟩
    rw [LineMap.position, hposition, Option.getD_some, hbefore.take_bytes]
  ordered _ _ hab := position_le_position (UInt32.le_iff_toNat_le.1 hab)
  locationOf _ hs := position_le_position (UInt32.le_iff_toNat_le.1 hs)

/-- On the second line, byte 4 is the last one of a wide character. -/
example : let l := ofSourceWith (fun _ => some 2) "a\n中b"
    l.position 4 = ⟨2, 0⟩ ∧ l.position 5 = ⟨2, 2⟩ := by
  decide +kernel

end LineMap

end ScriptReader
