import ScriptReader.Source.Span

/-!
# Spans that can be made

A span is a bare pair of words, but all of the ways there are to make one, and to make one of
another, keep its ends in order.  For that reason a part of a span can be cut out on words alone:
neither the difference that is its length nor the sum that is the start of the part wraps around.

## Main Definitions

* `Span.Made` — a span that can be made
* `Span.within` — as many bytes as are asked for, or as there are
* `Span.CutsAt` — a part of a span is where it should be, and nothing wraps around on the way

## Main Statements

* `Span.Made.start_le_stop` — the ends of a span that can be made are in order
* `Span.cutsAt` — parts of spans whose ends are in order
-/

namespace ScriptReader

theorem Offset.toNat_min (a b : Offset) : (min a b).toNat = min a.toNat b.toNat := by
  rw [show min a b = if a ≤ b then a else b from rfl]
  split
  case isTrue h => exact (Nat.min_eq_left (UInt32.le_iff_toNat_le.1 h)).symm
  case isFalse h =>
    have hlt := Nat.lt_of_not_le fun hle => h (UInt32.le_iff_toNat_le.2 hle)
    exact (Nat.min_eq_right (Nat.le_of_lt hlt)).symm

namespace Span

/-- The spans that can be made, whatever numbers are given. -/
inductive Made : Span → Prop
  | between (a b : Offset) : Made (.between a b)
  | point (a : Offset) : Made (.point a)
  | ofBytes (a b : Nat) : Made (.ofBytes a b)
  | default : Made default
  /-- A part of a span. -/
  | slice {s : Span} (made : Made s) (skip size : Nat) : Made (s.slice skip size)
  /-- A span that has been moved. -/
  | offsetBy {s : Span} (made : Made s) (d : Offset) : Made (s.offsetBy d)

variable {s : Span}

theorem start_le_stop_between (a b : Offset) : (between a b).start ≤ (between a b).stop := by
  show a ≤ max a b
  rw [show max a b = if a ≤ b then b else a from rfl]
  split
  case isTrue h => exact h
  case isFalse => exact UInt32.le_refl a

/-- The ends of a span that can be made are in order. -/
theorem Made.start_le_stop (h : s.Made) : s.start ≤ s.stop := by
  induction h with
  | between a b => exact start_le_stop_between a b
  | point a => exact UInt32.le_refl a
  | ofBytes a b => exact start_le_stop_between _ _
  | default => exact UInt32.le_refl _
  | slice made skip size ih =>
    rw [UInt32.le_iff_toNat_le] at ih ⊢
    simp only [Span.slice, length, Offset.toNat_clamp]
    omega
  | offsetBy made d ih =>
    rw [UInt32.le_iff_toNat_le] at ih ⊢
    simp only [Span.offsetBy, Offset.toNat_clamp]
    omega

/-! ### Parts of a span -/

theorem eq_of_toNat {s r : Span} (hstart : s.start.toNat = r.start.toNat)
    (hstop : s.stop.toNat = r.stop.toNat) : s = r := by
  obtain ⟨a, b⟩ := s
  obtain ⟨c, d⟩ := r
  rw [Span.mk.injEq]
  exact ⟨UInt32.toNat_inj.1 hstart, UInt32.toNat_inj.1 hstop⟩

/-- As many bytes as `n`, or as the span has, in words. -/
def within (s : Span) (n : Nat) : Offset := min (.clamp n) (s.stop - s.start)

/-- The part of `size` bytes from byte `skip` of the span on.  It is found in words: only the sum
that is the end of the part stops at the greatest offset, and the difference and the other sum,
which would wrap around, do not do so. -/
structure CutsAt (s : Span) (skip size : Nat) : Prop where
  /-- The length does not wrap around. -/
  length : (s.stop - s.start).toNat = s.stop.toNat - s.start.toNat
  /-- Nor does the start of the part. -/
  start : (s.start + s.within skip).toNat = s.start.toNat + (s.within skip).toNat
  /-- The part lies between these words. -/
  slice : s.slice skip size =
    ⟨s.start + s.within skip,
      min (.clamp ((s.start + s.within skip).toNat + (s.within size).toNat)) s.stop⟩
  /-- It begins where it should, or at the end of the span. -/
  start_slice : (s.slice skip size).start.toNat = s.start.toNat + min skip s.length
  /-- It ends where it should, or at the end of the span. -/
  stop_slice : (s.slice skip size).stop.toNat =
    min (s.start.toNat + min skip s.length + size) s.stop.toNat

/-- Parts of a span whose ends are in order. -/
theorem cutsAt (h : s.start ≤ s.stop) (skip size : Nat) : s.CutsAt skip size := by
  have htop := Offset.toNat_le_top s.stop
  have hle := UInt32.le_iff_toNat_le.1 h
  have hlength : (s.stop - s.start).toNat = s.stop.toNat - s.start.toNat :=
    UInt32.toNat_sub_of_le _ _ h
  have hwithin (n : Nat) : (s.within n).toNat = min n s.length := by
    rw [within, Offset.toNat_min, Offset.toNat_clamp, hlength, Span.length]
    omega
  have hstart : (s.start + s.within skip).toNat = s.start.toNat + (s.within skip).toNat := by
    rw [UInt32.toNat_add, hwithin, Nat.mod_eq_of_lt]
    unfold Offset.top at htop
    unfold Span.length
    omega
  have hstart_slice : (s.slice skip size).start.toNat = s.start.toNat + min skip s.length := by
    simp only [Span.slice, Span.length, Offset.toNat_clamp]
    omega
  have hstop_slice : (s.slice skip size).stop.toNat =
      min (s.start.toNat + min skip s.length + size) s.stop.toNat := by
    simp only [Span.slice, Span.length, Offset.toNat_clamp]
    omega
  refine ⟨hlength, hstart, ?_, hstart_slice, hstop_slice⟩
  refine eq_of_toNat ?_ ?_
  · rw [hstart_slice, hstart, hwithin]
  · rw [hstop_slice, Offset.toNat_min, Offset.toNat_clamp, hstart, hwithin, hwithin]
    unfold Span.length
    omega

end Span

end ScriptReader
