import Mathlib.Logic.Relation
import ScriptReader.Parse.Grammar

/-!
# Derivations and parse trees

A parse table knows of a production only its left-hand side and its length.  Given the right-hand
sides, the productions form a grammar in the usual sense, and this module says what that grammar
derives and what its trees are, without a word about parsing.

## Main Definitions

* `ParseTable.Derives` — a word of symbols is derived from another
* `ParseTree` — a tree of tokens and productions
* `ParseTree.WellFormed` — each node has the children that its production asks for

## Main Statements

* `ParseTree.WellFormed.derives` — the root of a tree derives the terminals of its leaves
-/

namespace ScriptReader

/-! ## Derivations -/

namespace ParseTable

variable {t : ParseTable} {rhs : ProductionId → List SymbolId} {v w v' w' : List SymbolId}

/-- One symbol of a word is rewritten by a production. -/
inductive Rewrites (t : ParseTable) (rhs : ProductionId → List SymbolId) :
    List SymbolId → List SymbolId → Prop
  | intro {p : ProductionId} {production : Production} (found : t.production? p = some production)
      (before after : List SymbolId) :
      Rewrites t rhs (before ++ production.lhs :: after) (before ++ rhs p ++ after)

/-- Any number of symbols are rewritten, one after another. -/
def Derives (t : ParseTable) (rhs : ProductionId → List SymbolId) :
    List SymbolId → List SymbolId → Prop :=
  Relation.ReflTransGen (t.Rewrites rhs)

theorem Rewrites.append_left (h : t.Rewrites rhs v w) (u : List SymbolId) :
    t.Rewrites rhs (u ++ v) (u ++ w) := by
  obtain ⟨found, before, after⟩ := h
  rw [← List.append_assoc u, List.append_assoc before, ← List.append_assoc u, ← List.append_assoc]
  exact .intro found (u ++ before) after

theorem Rewrites.append_right (h : t.Rewrites rhs v w) (u : List SymbolId) :
    t.Rewrites rhs (v ++ u) (w ++ u) := by
  obtain ⟨found, before, after⟩ := h
  rw [List.append_assoc before, List.cons_append, List.append_assoc (before ++ _)]
  exact .intro found before (after ++ u)

/-- What is derived side by side is derived together. -/
theorem Derives.append (h : t.Derives rhs v w) (h' : t.Derives rhs v' w') :
    t.Derives rhs (v ++ v') (w ++ w') :=
  (Relation.ReflTransGen.lift (· ++ v') (fun _ _ hr => Rewrites.append_right hr v') _ _ h).trans
    (Relation.ReflTransGen.lift (w ++ ·) (fun _ _ hr => Rewrites.append_left hr w) _ _ h')

/-- A left-hand side derives what its right-hand side derives. -/
theorem Derives.of_production {p : ProductionId} {production : Production}
    (found : t.production? p = some production) (h : t.Derives rhs (rhs p) w) :
    t.Derives rhs [production.lhs] w := by
  have hfirst : t.Rewrites rhs [production.lhs] (rhs p) := by
    simpa using Rewrites.intro found [] []
  exact Relation.ReflTransGen.head hfirst h

end ParseTable

/-! ## Trees -/

/-- A tree of tokens and productions. -/
inductive ParseTree where
  /-- A token. -/
  | leaf (token : Token)
  /-- A production with the trees of its symbols. -/
  | node (production : ProductionId) (children : List ParseTree)

namespace ParseTree

variable {κ ν : Type} {g : Grammar κ ν} {rhs : ProductionId → List SymbolId}

mutual

/-- The tokens of a tree, from left to right. -/
def leaves : ParseTree → List Token
  | .leaf token => [token]
  | .node _ children => leavesAll children

/-- The tokens of trees, from left to right. -/
def leavesAll : List ParseTree → List Token
  | [] => []
  | tree :: trees => tree.leaves ++ leavesAll trees

end

@[simp] theorem leaves_leaf (t : Token) : (leaf t).leaves = [t] := rfl

@[simp] theorem leaves_node (p : ProductionId) (children : List ParseTree) :
    (node p children).leaves = leavesAll children := rfl

@[simp] theorem leavesAll_nil : leavesAll [] = [] := rfl

@[simp] theorem leavesAll_cons (tree : ParseTree) (trees : List ParseTree) :
    leavesAll (tree :: trees) = tree.leaves ++ leavesAll trees := rfl

@[simp] theorem leavesAll_append (trees trees' : List ParseTree) :
    leavesAll (trees ++ trees') = leavesAll trees ++ leavesAll trees' := by
  induction trees with
  | nil => rfl
  | cons tree trees ih => simp [ih]

/-- The symbol of a tree, if it has one: the terminal of a token, or the left-hand side of a
production. -/
def root (g : Grammar κ ν) : ParseTree → Option SymbolId
  | .leaf token => g.terminal? token.kind
  | .node p _ => (g.table.production? p).map Production.lhs

/-- Each node of a tree is a production, and the symbols of its children are the right-hand side of
that. -/
inductive WellFormed (g : Grammar κ ν) (rhs : ProductionId → List SymbolId) : ParseTree → Prop
  | leaf (t : Token) : WellFormed g rhs (.leaf t)
  | node {p : ProductionId} {production : Production} {children : List ParseTree}
      (found : g.table.production? p = some production)
      (roots : children.map (root g) = (rhs p).map some)
      (below : ∀ child ∈ children, WellFormed g rhs child) : WellFormed g rhs (.node p children)

/-- `word` spells the terminals of the tokens `ts`. -/
def Spells (g : Grammar κ ν) (word : List SymbolId) (ts : List Token) : Prop :=
  ts.map (fun t => g.terminal? t.kind) = word.map some

theorem Spells.append {v w : List SymbolId} {ts us : List Token} (h : Spells g v ts)
    (h' : Spells g w us) : Spells g (v ++ w) (ts ++ us) := by
  rw [Spells, List.map_append, List.map_append, h, h']

/-- If each of a row of trees derives its leaves, their symbols together derive all leaves. -/
theorem exists_spells_leavesAll {trees : List ParseTree}
    (each : ∀ tree ∈ trees, ∀ x, tree.root g = some x →
      ∃ word, Spells g word tree.leaves ∧ g.table.Derives rhs [x] word)
    {xs : List SymbolId} (roots : trees.map (root g) = xs.map some) :
    ∃ word, Spells g word (leavesAll trees) ∧ g.table.Derives rhs xs word := by
  induction trees generalizing xs with
  | nil =>
    obtain rfl : xs = [] := by simpa using roots.symm
    exact ⟨[], rfl, .refl⟩
  | cons tree trees ih =>
    obtain ⟨x, xs, rfl, hx, hxs⟩ := List.map_eq_cons_iff.1 roots.symm
    obtain ⟨v, hv, hderives⟩ := each tree List.mem_cons_self x hx.symm
    obtain ⟨w, hw, hderives'⟩ := ih (fun u hu => each u (List.mem_cons_of_mem _ hu)) hxs.symm
    exact ⟨v ++ w, hv.append hw, hderives.append hderives'⟩

/-- **The root of a tree derives the terminals of its leaves.** -/
theorem WellFormed.derives {tree : ParseTree} (h : tree.WellFormed g rhs) {x : SymbolId}
    (hx : tree.root g = some x) :
    ∃ word, Spells g word tree.leaves ∧ g.table.Derives rhs [x] word := by
  induction h generalizing x with
  | leaf t => exact ⟨[x], congrArg (fun y => [y]) hx, .refl⟩
  | node found roots _ ih =>
    obtain ⟨word, hspells, hderives⟩ := exists_spells_leavesAll (fun u hu y => ih u hu) roots
    refine ⟨word, hspells, ?_⟩
    rw [root, found] at hx
    obtain rfl := Option.some.inj hx
    exact hderives.of_production found

end ParseTree

end ScriptReader
