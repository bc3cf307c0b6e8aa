import ScriptReader.Proofs.Parse.Locations
import ScriptReader.Proofs.Parse.Paths
import ScriptReader.Proofs.Reading.Coverage

/-!
# Locations from the source to the stack

The tokens of a source stand one after another by offset, and a line map keeps that order.  Whatever
grammar they are parsed with, what the parser and the semantics are told about places is therefore
in order.

## Main Statements

* `laidOut_tokenize` — the tokens of a source stand one after another by line and column
* `Grammar.keepsOrder_tokenize` — locations are in order throughout every parse of a source
-/

namespace ScriptReader

variable {source : String}

/-- Tokens that account for the bytes of a source stand one after another by line and column. -/
theorem Tiles.laidOut {spare : Nat → Prop} {good : Token → Prop} {a b : Nat} {ts : List Token}
    {p : Position} (width : Char → Option Nat)
    (hp : ∀ o : Offset, a ≤ o.toNat → p ≤ (LineMap.ofSourceWith width source).position o)
    (h : Tiles spare good a b ts) :
    LaidOut p (ts.map (LineMap.ofSourceWith width source).locate) := by
  induction h generalizing p with
  | nil => exact .nil p
  | cons skip ordered _ _ ih =>
    refine .cons rfl (hp _ skip.le) (LineMap.position_le_position ordered) (ih ?_)
    intro o ho
    exact LineMap.position_le_position ho

/-- The tokens of a source stand one after another by line and column. -/
theorem laidOut_tokenize (width : Char → Option Nat) (hsize : source.utf8ByteSize ≤ Offset.top) :
    LaidOut default ((tokenize source).map (LineMap.ofSourceWith width source).locate) :=
  (tiles_tokenize source hsize).laidOut width fun o _ => LineMap.default_le_position o

namespace Grammar

variable {κ ν : Type}

/-- **Locations are in order throughout every parse of a source**, whatever columns characters take
and whatever the tables and the semantics are.  With the usual columns the tokens are those of
`locatedTokens`. -/
theorem keepsOrder_tokenize (width : Char → Option Nat) (hsize : source.utf8ByteSize ≤ Offset.top)
    (g : Grammar κ ν) (context : κ) :
    g.KeepsOrder context ((tokenize source).map (LineMap.ofSourceWith width source).locate) :=
  g.keepsOrder_of_laidOut context (laidOut_tokenize width hsize)

/-- Two words, of which the first is made a list, and a comma that lists do not have. -/
theorem keepsOrder_words :
    "a b ,".utf8ByteSize ≤ Offset.top ∧
    (Grammar.mk .lists Configuration.noValues).parse 2 () (locatedTokens "a b ,") =
      some ((), .error (.invalidToken .comma ⟨⟨1, 4⟩, ⟨1, 5⟩⟩)) ∧
    (Grammar.mk .lists Configuration.noValues).KeepsOrder () (locatedTokens "a b ,") := by
  have htokens : locatedTokens "a b ," =
      [{ kind := .identifier, text := "a", span := ⟨0, 1⟩, location := some ⟨⟨1, 0⟩, ⟨1, 1⟩⟩ },
        { kind := .identifier, text := "b", span := ⟨2, 3⟩, location := some ⟨⟨1, 2⟩, ⟨1, 3⟩⟩ },
        { kind := .comma, text := ",", span := ⟨4, 5⟩, location := some ⟨⟨1, 4⟩, ⟨1, 5⟩⟩ }] := by
    decide +kernel
  have hsize : "a b ,".utf8ByteSize ≤ Offset.top := by decide
  refine ⟨hsize, ?_, keepsOrder_tokenize displayWidth hsize _ ()⟩
  rw [htokens]
  simp [parse, Configuration.pushAll, Configuration.push, Configuration.lists_terminal?_identifier,
    Configuration.lists_terminal?_comma, Configuration.settle, Configuration.state,
    Configuration.start, ParseTable.lists_action?, ParseTable.lists_production?,
    ParseTable.lists_goto?, Configuration.initialState, Configuration.reduce,
    Configuration.shift, Configuration.enter, Configuration.leave, Configuration.siteOf]

end Grammar

end ScriptReader
