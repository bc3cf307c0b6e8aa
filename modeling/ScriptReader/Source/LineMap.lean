import ScriptReader.Source.DisplayWidth
import ScriptReader.Token.Basic

/-!
# From offsets to lines and columns

A line map is made once for a source and then answers for any offset.

## Main Definitions

* `partitionPoint` — how many entries of a table come before the first that fails a test
* `LineMap` — a source with the offsets at which its lines start
* `LineMap.position?` and `LineMap.position` — the position of an offset
* `LineMap.locationOf` — the location of a span
* `LineMap.locate` — a token with its location filled in

## Design Notes

Where lines start is found once, among the bytes of the source.  The line of an offset is then
looked up by binary search, and its column by adding up what the characters before it on its line
take.  An offset inside a character is read as the start of it, and one past the end as the end.

Looking up cuts the source where a line starts and where the offset is, which no text need allow.
`LineMap.position?` therefore may fail; in a line map that was made for a source it never does.

A column counts terminal columns.  What a character takes is a parameter, `displayWidth` being the
usual choice; a character without a width takes one column.
-/

namespace ScriptReader

/-! ### Binary search -/

/-- Binary search between the places `lo` and `hi` of a table for the first entry that fails a
test, if all before `lo` pass it and all from `hi` on fail it. -/
def partitionPointIn {α : Type} (test : α → Bool) (xs : Array α) (lo hi : Nat)
    (hhi : hi ≤ xs.size) : Nat :=
  if h : lo < hi then
    if test xs[lo + (hi - lo) / 2] then
      partitionPointIn test xs (lo + (hi - lo) / 2 + 1) hi hhi
    else
      partitionPointIn test xs lo (lo + (hi - lo) / 2) (by omega)
  else lo
termination_by hi - lo

/-- How many entries of a table pass a test that, once failed, is failed by all that follow. -/
def partitionPoint {α : Type} (test : α → Bool) (xs : Array α) : Nat :=
  partitionPointIn test xs 0 xs.size (Nat.le_refl _)

/-! ### Line maps -/

/-- A source with the offsets at which its lines start. -/
structure LineMap where
  /-- The source. -/
  source : String
  /-- The columns that a character takes, if it has a width. -/
  width : Char → Option Nat
  /-- The offsets at which lines start, in order. -/
  lineStarts : Array Nat

namespace LineMap

/-- The offsets at which the lines of a text with these bytes start: its start, and just after each
line break. -/
def lineStartsOf (bs : List UInt8) : List Nat :=
  0 :: (Text.placesFrom '\n'.toUInt8 0 bs).map (· + 1)

/-- The line map of a source, given the width of characters. -/
def ofSourceWith (width : Char → Option Nat) (source : String) : LineMap where
  source := source
  width := width
  lineStarts := (lineStartsOf (Text.bytes source)).toArray

/-- The line map of a source. -/
def ofSource (source : String) : LineMap := ofSourceWith displayWidth source

/-- The columns that a text takes. -/
def columns (width : Char → Option Nat) (text : String) : Nat :=
  text.toList.foldl (fun n c => n + (width c).getD 1) 0

/-- The position of an offset, if its line can be found and cut out of the source. -/
def position? (l : LineMap) (offset : Offset) : Option Position :=
  let stop := Text.floorBoundary l.source (min offset.toNat l.source.utf8ByteSize)
  let line := partitionPoint (· ≤ stop) l.lineStarts
  l.lineStarts[line - 1]?.bind fun start =>
    (Text.cut? l.source start stop).map fun text =>
      ⟨Offset.clamp line, Offset.clamp (columns l.width text)⟩

/-- The position of an offset. -/
def position (l : LineMap) (offset : Offset) : Position := (l.position? offset).getD default

/-- The location of a span. -/
def locationOf (l : LineMap) (s : Span) : Location := ⟨l.position s.start, l.position s.stop⟩

/-- The token with its location filled in. -/
def locate (l : LineMap) (t : Token) : Token := { t with location := some (l.locationOf t.span) }

end LineMap

end ScriptReader
