import ScriptReader.Parse.Grammar

/-!
# Syntax trees

The values of a parse that shows what it has recognised, and a context that writes down what it is
told, the newest notice first.

## Main Definitions

* `Tree` — a tree of tokens and named nodes, written by its instance of `ToString`
* `Notice` — what a context is told
* `Semantics.recording` — builds trees and records notices

## Design Notes

The reducer of a node writes the location that it is given into the name of the node, so that the
trees show where everything stands.
-/

namespace ScriptReader

/-- A tree of tokens and named nodes. -/
inductive Tree where
  /-- Nothing at all. -/
  | empty
  /-- A token, as text. -/
  | leaf (text : String)
  /-- A node. -/
  | branch (name : String) (children : List Tree)
  deriving Repr

namespace Tree

mutual

/-- A tree in parentheses. -/
def render : Tree → String
  | .empty => "()"
  | .leaf text => text
  | .branch name children => "(" ++ name ++ renderAll children ++ ")"

/-- Trees, each after a blank. -/
def renderAll : List Tree → String
  | [] => ""
  | t :: ts => " " ++ t.render ++ renderAll ts

end

instance : ToString Tree := ⟨render⟩

instance : Inhabited Tree := ⟨.empty⟩

/-- The leaf of a token: its kind and its text. -/
def ofToken (t : Token) : Tree := .leaf s!"{t.kind.name}<{t.text}>"

end Tree

/-- What a context is told. -/
inductive Notice (ν : Type) where
  /-- A production is about to be reduced from these values. -/
  | started (production : ProductionId) (values : List ν) (location : Location)
  /-- A production has been reduced to this value. -/
  | ended (production : ProductionId) (value : ν) (location : Location)
  deriving Repr

/-- A reducer of trees.  With a name it makes a node, without one nothing. -/
def Tree.reducer {κ : Type} (name : Option String) (context : κ) (values : List Tree)
    (location : Location) : κ × Tree :=
  match name with
  | some name => (context, .branch s!"{name}@{location}" values)
  | none => (context, .empty)

/-- Builds trees and records notices, with the given names of productions; a later name replaces an
earlier one. -/
def Semantics.recording (names : List (ProductionId × Option String)) :
    Semantics (List (Notice Tree)) Tree :=
  let plain : Semantics (List (Notice Tree)) Tree :=
    { ofToken := Tree.ofToken
      blank := .empty
      started := fun log p values l => .started p values l :: log
      ended := fun log p value l => .ended p value l :: log }
  names.foldl (fun m entry => m.withReducer entry.1 (Tree.reducer entry.2)) plain

end ScriptReader
