/-!
# Spans of source text

A source is addressed by byte offsets, and an offset is a 32-bit word: arithmetic on spans that
would leave the range stays at its upper end instead of wrapping around.

## Main Definitions

* `Offset` — a byte offset, with `Offset.clamp` from the natural numbers
* `Offset.plus` — the offset some bytes further on, which may wrap around
* `Span` — a half-open interval of offsets
* `Span.slice` — a part of a span, cut off at the span's end
* `Span.offsetBy` — a span moved forward

## Design Notes

A span is a bare pair.  That its start never exceeds its stop is a property of the functions that
make spans (`Span.between`, `Span.point`, `Span.ofBytes`) and of those that change them, and it is
stated there.  Lengths and relative positions are natural numbers, since they may come from texts
of any size.
-/

namespace ScriptReader

/-- A byte offset into a source. -/
abbrev Offset := UInt32

namespace Offset

/-- The greatest offset. -/
def top : Nat := 4294967295

/-- The offset `n`, or the greatest offset if `n` exceeds it. -/
def clamp (n : Nat) : Offset := UInt32.ofNatClamp n

theorem toNat_clamp (n : Nat) : (clamp n).toNat = min n top := by
  have hsize : UInt32.size = 4294967296 := rfl
  unfold clamp UInt32.ofNatClamp top
  split
  case isTrue h => simp only [UInt32.toNat_ofNatLT]; omega
  case isFalse h => simp only [UInt32.toNat_ofNatLT]; omega

theorem toNat_le_top (a : Offset) : a.toNat ≤ top := by
  have := a.toNat_lt
  unfold top
  omega

/-- The offset `n` bytes after `a`, as the sum of two words. -/
def plus (a : Offset) (n : Nat) : Offset := a + UInt32.ofNat n

theorem toNat_plus (a : Offset) (n : Nat) : (a.plus n).toNat = (a.toNat + n) % (top + 1) := by
  rw [plus, UInt32.toNat_add, UInt32.toNat_ofNat']
  exact Nat.add_mod_mod ..

theorem toNat_plus_of_le {a : Offset} {n : Nat} (h : a.toNat + n ≤ top) :
    (a.plus n).toNat = a.toNat + n := by
  rw [toNat_plus, Nat.mod_eq_of_lt (Nat.lt_succ_of_le h)]

end Offset

/-- The bytes of a source from `start` up to and not including `stop`. -/
structure Span where
  /-- Offset of the first byte. -/
  start : Offset
  /-- Offset just past the last byte. -/
  stop : Offset
  deriving DecidableEq, Repr, Ord

namespace Span

/-- The span from `a` to `b`; an inverted pair collapses onto `a`. -/
def between (a b : Offset) : Span := ⟨a, max a b⟩

/-- The empty span at `a`. -/
def point (a : Offset) : Span := ⟨a, a⟩

/-- The span between two byte counts, each cut down to the greatest offset. -/
def ofBytes (a b : Nat) : Span := between (Offset.clamp a) (Offset.clamp b)

instance : Inhabited Span := ⟨Span.point 0⟩

/-- Number of bytes covered. -/
def length (s : Span) : Nat := s.stop.toNat - s.start.toNat

/-- Whether the span covers no byte. -/
def isEmpty (s : Span) : Bool := s.start == s.stop

/-- The `size` bytes that begin `skip` bytes into the span, cut off at its end. -/
def slice (s : Span) (skip size : Nat) : Span :=
  let start := s.start.toNat + min skip s.length
  ⟨Offset.clamp start, Offset.clamp (min (start + min size s.length) s.stop.toNat)⟩

/-- The span moved forward by `d`, each end stopping at the greatest offset. -/
def offsetBy (s : Span) (d : Offset) : Span :=
  ⟨Offset.clamp (s.start.toNat + d.toNat), Offset.clamp (s.stop.toNat + d.toNat)⟩

/-- Interval notation. -/
instance : ToString Span := ⟨fun s => s!"[{s.start}, {s.stop})"⟩

/-! ### Where spans lie

Within the range of offsets the arithmetic of spans is that of the natural numbers. -/

theorem toNat_start_ofBytes {a : Nat} (b : Nat) (ha : a ≤ Offset.top) :
    (ofBytes a b).start.toNat = a := by
  simp only [ofBytes, between, Offset.toNat_clamp]
  omega

theorem toNat_stop_ofBytes {a b : Nat} (hab : a ≤ b) (hb : b ≤ Offset.top) :
    (ofBytes a b).stop.toNat = b := by
  have hle : Offset.clamp a ≤ Offset.clamp b := by
    rw [UInt32.le_iff_toNat_le, Offset.toNat_clamp, Offset.toNat_clamp]
    omega
  have hmax : max (Offset.clamp a) (Offset.clamp b) = Offset.clamp b := by
    rw [show max (Offset.clamp a) (Offset.clamp b)
      = if Offset.clamp a ≤ Offset.clamp b then Offset.clamp b else Offset.clamp a from rfl,
      if_pos hle]
  simp only [ofBytes, between, hmax, Offset.toNat_clamp]
  omega

theorem toNat_start_slice (s : Span) {skip : Nat} (size : Nat)
    (hskip : s.start.toNat + skip ≤ s.stop.toNat) :
    (s.slice skip size).start.toNat = s.start.toNat + skip := by
  have htop := Offset.toNat_le_top s.stop
  simp only [slice, length, Offset.toNat_clamp]
  omega

theorem toNat_stop_slice (s : Span) {skip size : Nat}
    (hsize : s.start.toNat + skip + size ≤ s.stop.toNat) :
    (s.slice skip size).stop.toNat = s.start.toNat + skip + size := by
  have htop := Offset.toNat_le_top s.stop
  simp only [slice, length, Offset.toNat_clamp]
  omega

theorem toNat_start_offsetBy (s : Span) (d : Offset)
    (h : d.toNat + s.start.toNat ≤ Offset.top) :
    (s.offsetBy d).start.toNat = d.toNat + s.start.toNat := by
  simp only [offsetBy, Offset.toNat_clamp]
  omega

theorem toNat_stop_offsetBy (s : Span) (d : Offset)
    (h : d.toNat + s.stop.toNat ≤ Offset.top) :
    (s.offsetBy d).stop.toNat = d.toNat + s.stop.toNat := by
  simp only [offsetBy, Offset.toNat_clamp]
  omega

end Span

end ScriptReader
