/-!
# Texts measured in bytes

A text is handled as its list of characters, while offsets into it count the bytes of its UTF-8
form.  This module goes from one to the other.

## Main Definitions

* `Text.byteCount` — the number of bytes of a list of characters
* `Text.dropBytes?` and `Text.takeBytes?` — cut a text at a byte count
* `Text.slice?` — the piece of a text between two byte counts
* `Text.cut?` — the same in one go, by places in the text
* `Text.bytes` — the bytes of the UTF-8 form of a text
* `Text.placesFrom` — where a byte occurs among others
* `Text.floorBoundary` — the last boundary that is not after a byte count

## Design Notes

A byte count is a *boundary* of a text when some leading run of its characters has exactly that
many bytes.  The cutting functions answer only at boundaries: no character is ever split.
-/

namespace ScriptReader.Text

/-- Number of bytes of the UTF-8 form of a text. -/
def byteCount : List Char → Nat
  | [] => 0
  | c :: cs => c.utf8Size + byteCount cs

@[simp] theorem byteCount_nil : byteCount [] = 0 := rfl

@[simp] theorem byteCount_cons (c : Char) (cs : List Char) :
    byteCount (c :: cs) = c.utf8Size + byteCount cs := rfl

@[simp] theorem byteCount_append (cs ds : List Char) :
    byteCount (cs ++ ds) = byteCount cs + byteCount ds := by
  induction cs with
  | nil => simp
  | cons c cs ih => simp [ih, Nat.add_assoc]

/-- The characters of `cs` from byte `n` on, if `n` is a boundary. -/
def dropBytes? : Nat → List Char → Option (List Char)
  | 0, cs => some cs
  | _ + 1, [] => none
  | n + 1, c :: cs => if c.utf8Size ≤ n + 1 then dropBytes? (n + 1 - c.utf8Size) cs else none

/-- The characters of `cs` before byte `n`, if `n` is a boundary. -/
def takeBytes? : Nat → List Char → Option (List Char)
  | 0, _ => some []
  | _ + 1, [] => none
  | n + 1, c :: cs =>
    if c.utf8Size ≤ n + 1 then (takeBytes? (n + 1 - c.utf8Size) cs).map (c :: ·) else none

/-- Dropping what a text begins with leaves the rest of it. -/
theorem dropBytes?_append (cs ds : List Char) : dropBytes? (byteCount cs) (cs ++ ds) = some ds := by
  induction cs with
  | nil => cases ds <;> rfl
  | cons c cs ih =>
    obtain ⟨n, hn⟩ : ∃ n, byteCount (c :: cs) = n + 1 :=
      ⟨byteCount (c :: cs) - 1, by have := c.utf8Size_pos; simp; omega⟩
    rw [hn, List.cons_append, dropBytes?, ← hn]
    simp [ih]

/-- Taking what a text begins with gives just that. -/
theorem takeBytes?_append (cs ds : List Char) : takeBytes? (byteCount cs) (cs ++ ds) = some cs := by
  induction cs with
  | nil => cases ds <;> rfl
  | cons c cs ih =>
    obtain ⟨n, hn⟩ : ∃ n, byteCount (c :: cs) = n + 1 :=
      ⟨byteCount (c :: cs) - 1, by have := c.utf8Size_pos; simp; omega⟩
    rw [hn, List.cons_append, takeBytes?, ← hn]
    simp [ih]

/-- The piece of `text` from byte `start` up to byte `stop`, if both are boundaries. -/
def slice? (text : String) (start stop : Nat) : Option String :=
  (dropBytes? start text.toList).bind fun rest =>
    (takeBytes? (stop - start) rest).map String.ofList

/-- The piece of `text` from byte `start` up to byte `stop`, if both are boundaries and in order.
Nothing before it is looked at. -/
def cut? (text : String) (start stop : Nat) : Option String :=
  if String.Pos.Raw.isValid text ⟨start⟩ ∧ String.Pos.Raw.isValid text ⟨stop⟩ ∧ start ≤ stop then
    some (String.Pos.Raw.extract text ⟨start⟩ ⟨stop⟩)
  else none

/-! ### Single bytes -/

/-- The bytes of a text. -/
def bytes (s : String) : List UInt8 := s.toByteArray.data.toList

/-- The places at which `b` occurs in a list of bytes, the first of which stands at place `n`. -/
def placesFrom (b : UInt8) (n : Nat) : List UInt8 → List Nat
  | [] => []
  | c :: cs => if c = b then n :: placesFrom b (n + 1) cs else placesFrom b (n + 1) cs

/-- The offset reached from byte `n` of a text by steps back of one byte, until it is a boundary. -/
def floorBoundary (s : String) : Nat → Nat
  | 0 => 0
  | n + 1 => if String.Pos.Raw.isValid s ⟨n + 1⟩ then n + 1 else floorBoundary s n

end ScriptReader.Text
