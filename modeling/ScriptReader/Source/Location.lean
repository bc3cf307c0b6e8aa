import ScriptReader.Source.Span

/-!
# Lines and columns

What a reader of a message is told: not byte offsets but lines and columns.

## Main Definitions

* `Position` — a line, counted from one, and a column, counted from zero
* `Location` — a range of positions
* `Location.through` — the range from the start of one location to the end of another
-/

namespace ScriptReader

/-- A place in a source as a person counts. -/
structure Position where
  /-- The line, the first one being `1`. -/
  line : UInt32 := 1
  /-- The column, the first one being `0`. -/
  column : UInt32 := 0
  deriving DecidableEq, Repr, Ord

namespace Position

/-- The start of a source. -/
instance : Inhabited Position := ⟨1, 0⟩

instance : ToString Position := ⟨fun p => s!"{p.line}:{p.column}"⟩

end Position

/-- A range of positions. -/
structure Location where
  /-- Where the range begins. -/
  start : Position
  /-- Where the range ends. -/
  stop : Position
  deriving DecidableEq, Repr, Ord

namespace Location

instance : Inhabited Location := ⟨default, default⟩

/-- The empty range at `p`. -/
def point (p : Position) : Location := ⟨p, p⟩

/-- The range from where `first` begins to where `last` ends. -/
def through (first last : Location) : Location := ⟨first.start, last.stop⟩

/-- An empty range is written as one position. -/
instance : ToString Location :=
  ⟨fun l => if l.start = l.stop then toString l.start else s!"{l.start}-{l.stop}"⟩

end Location

end ScriptReader
