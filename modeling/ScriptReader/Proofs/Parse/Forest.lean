import Mathlib.Data.List.Forall2
import ScriptReader.Parse.Tree
import ScriptReader.Proofs.Parse.Soundness

/-!
# The stack is a forest over what has been read

With a semantics that builds trees, the values on the stack are trees whose leaves are the tokens
that were shifted and whose nodes are the reductions that were made, and the context has been told
of just these.  Nothing of this depends on the tables: they may contradict themselves, and tokens
may fail, as long as no reduced symbol leads nowhere, since then its tree is lost.

## Main Definitions

* `ParseTree.nodes` — the nodes of a tree, each after those below it
* `ParseTree.GrowsFrom` — a tree is that of a symbol
* `Semantics.Reports` — a context keeps a log of what it is told
* `Configuration.Reads` — what tokens lead to, those that fail included
* `Configuration.AccountsFor` — the values on the stack account for what has happened

## Main Statements

* `Configuration.accountsFor_of_reads` — the values always do
-/

namespace ScriptReader

/-! ## Nodes of trees -/

namespace ParseTree

mutual

/-- The nodes of a tree, each with its children and after all nodes below it. -/
def nodes : ParseTree → List (ProductionId × List ParseTree)
  | .leaf _ => []
  | .node p children => nodesAll children ++ [(p, children)]

/-- The nodes of trees, from left to right. -/
def nodesAll : List ParseTree → List (ProductionId × List ParseTree)
  | [] => []
  | tree :: trees => tree.nodes ++ nodesAll trees

end

@[simp] theorem nodes_leaf (t : Token) : (leaf t).nodes = [] := rfl

@[simp] theorem nodes_node (p : ProductionId) (children : List ParseTree) :
    (node p children).nodes = nodesAll children ++ [(p, children)] := rfl

@[simp] theorem nodesAll_nil : nodesAll [] = [] := rfl

@[simp] theorem nodesAll_cons (tree : ParseTree) (trees : List ParseTree) :
    nodesAll (tree :: trees) = tree.nodes ++ nodesAll trees := rfl

@[simp] theorem nodesAll_append (trees trees' : List ParseTree) :
    nodesAll (trees ++ trees') = nodesAll trees ++ nodesAll trees' := by
  induction trees with
  | nil => rfl
  | cons tree trees ih => simp [ih]

/-- The tree of a symbol: a token whose terminal it is, or a node of a production whose left-hand
side it is, with as many children as that is long. -/
inductive GrowsFrom {κ ν : Type} (g : Grammar κ ν) : ParseTree → SymbolId → Prop
  | leaf {t : Token} {x : SymbolId} (terminal : g.terminal? t.kind = some x) :
      GrowsFrom g (.leaf t) x
  | node {p : ProductionId} {production : Production} {children : List ParseTree}
      (found : g.table.production? p = some production)
      (length : children.length = production.length) :
      GrowsFrom g (.node p children) production.lhs

end ParseTree

/-! ## Notices -/

/-- The context keeps a log of what it is told, which reducers leave alone. -/
structure Semantics.Reports {κ ν : Type} (m : Semantics κ ν) (log : κ → List (Notice ν)) :
    Prop where
  /-- It is told that a reduction begins. -/
  started : ∀ context p values l,
    log (m.started context p values l) = log context ++ [.started p values l]
  /-- It is told what a reduction has made. -/
  ended : ∀ context p value l,
    log (m.ended context p value l) = log context ++ [.ended p value l]
  /-- Nothing else is told. -/
  reducer : ∀ {p reducer}, m.reducer? p = some reducer →
    ∀ context values l, log (reducer context values l).1 = log context

/-- Of a reduction the context is told twice. -/
theorem Semantics.Reports.log_reduce {κ ν : Type} {m : Semantics κ ν} {log : κ → List (Notice ν)}
    (hlog : m.Reports log) (context : κ) (p : ProductionId) (values : List ν) (l : Location) :
    log (m.reduce context p values l).1 =
      log context ++ [.started p values l, .ended p (m.reduce context p values l).2 l] := by
  simp only [Semantics.reduce, hlog.ended]
  cases hreducer : m.reducer? p with
  | none => simp [hlog.started]
  | some reducer => simp [hlog.reducer hreducer, hlog.started]

/-- What is told of a reduction that makes a node. -/
def Reduction.notices (r : Reduction) (node : ProductionId × List ParseTree) :
    List (Notice ParseTree) :=
  [.started node.1 node.2 r.location, .ended node.1 (.node node.1 node.2) r.location]

/-- The failure of a reduction whose result leads nowhere. -/
def ParseError.IsMissingGoto (e : ParseError) : Prop :=
  ∃ state symbol l, e = .invalidTable state (.missingGoto symbol) l

namespace Configuration

variable {κ : Type} {g : Grammar κ ParseTree} {c c' : Configuration κ ParseTree}
variable {fs : List (Frame ParseTree)} {log : κ → List (Notice ParseTree)} {context : κ}
variable {ts : List Token} {rs : List Reduction} {r : Reduction} {p : ProductionId}

/-- From the start, tokens have been pushed of which just `ts` were shifted, and `rs` are the
reductions that they brought about.  None of the tokens that failed has left a symbol without a
goto. -/
inductive Reads {κ ν : Type} (g : Grammar κ ν) (context : κ) :
    List Token → List Reduction → Configuration κ ν → Prop
  | start : Reads g context [] [] (start context)
  | shifted {ts : List Token} {rs : List Reduction} {c : Configuration κ ν} {t : Token}
      {patience : Nat} {turn : Turn κ ν} (before : Reads g context ts rs c)
      (pushed : c.push g patience t = some turn) (shifted : turn.result = .ok ()) :
      Reads g context (ts ++ [t]) (rs ++ turn.reductions) turn.after
  | failed {ts : List Token} {rs : List Reduction} {c : Configuration κ ν} {t : Token}
      {patience : Nat} {turn : Turn κ ν} {fault : ParseError} (before : Reads g context ts rs c)
      (pushed : c.push g patience t = some turn) (failed : turn.result = .error fault)
      (found : ¬ fault.IsMissingGoto) :
      Reads g context ts (rs ++ turn.reductions) turn.after

/-- The values on the stack account for the tokens `ts` that were shifted, for the reductions `rs`
that were made and for what the context has been told since the start. -/
structure AccountsFor (g : Grammar κ ParseTree) (log : κ → List (Notice ParseTree)) (context : κ)
    (ts : List Token) (rs : List Reduction) (c : Configuration κ ParseTree) : Prop where
  /-- The leaves of the values are the tokens, in the order in which they were pushed. -/
  leaves : ParseTree.leavesAll c.values = ts
  /-- The value at each place is the tree of the symbol there. -/
  trees : List.Forall₂ (ParseTree.GrowsFrom g) c.values c.symbols
  /-- The nodes of the values are the reductions, in the order in which they were made. -/
  nodes : (ParseTree.nodesAll c.values).map Prod.fst = rs.map Reduction.production
  /-- Of each node the context has been told twice in a row, and of nothing else. -/
  notices : log c.context =
    log context ++ (List.zipWith Reduction.notices rs (ParseTree.nodesAll c.values)).flatten

/-! ## Steps -/

/-- A reduction makes its node and tells of it. -/
theorem reduce_of_buildsTrees {m : Semantics κ ParseTree} {t : ParseTable}
    (hm : m.BuildsTrees t) (hlog : m.Reports log) {production : Production}
    (hp : t.production? p = some production) (context : κ) (children : List ParseTree)
    (l : Location) :
    (m.reduce context p children l).2 = .node p children ∧
      log (m.reduce context p children l).1 =
        log context ++ [.started p children l, .ended p (.node p children) l] := by
  obtain ⟨reducer, hreducer, hnode⟩ := hm.node hp
  have hmade : (m.reduce context p children l).2 = .node p children := by
    simp only [Semantics.reduce, hreducer, hnode]
  exact ⟨hmade, by rw [hlog.log_reduce, hmade]⟩

theorem accountsFor_start (context : κ) : AccountsFor g log context [] [] (start context) where
  leaves := rfl
  trees := .nil
  nodes := rfl
  notices := (List.append_nil _).symm

/-- A completed reduction puts a node in the place of the trees of its symbols, which keeps their
leaves and comes after all nodes made before. -/
theorem AccountsFor.completed (hm : g.semantics.BuildsTrees g.table)
    (hlog : g.semantics.Reports log) (hc : c.Holds fs)
    (h : AccountsFor g log context ts rs c) (hr : c.reduce g p = .completed r c') :
    AccountsFor g log context ts (rs ++ [r]) c' := by
  obtain ⟨production, target, hp, hlen, -, hreduction, hcontext, -, hc'⟩ := hc.completed hr
  obtain ⟨hmade, htold⟩ := reduce_of_buildsTrees hm hlog hp c.context
    ((fs.take production.length).map Frame.value).reverse (c.placeOf fs production)
  rw [made] at hcontext hc'
  rw [hmade] at hc'
  generalize hchildren : ((fs.take production.length).map Frame.value).reverse = children at *
  generalize hbelow : ((fs.drop production.length).map Frame.value).reverse = below at *
  have hvalues : c.values = below ++ children := by
    rw [values, hc.values, ← hbelow, ← hchildren, ← List.reverse_append, ← List.map_append,
      List.take_append_drop]
  have hvalues' : c'.values = below ++ [.node p children] := by
    rw [values, hc'.values, List.map_cons, List.reverse_cons, hbelow]
  have hlength : children.length = production.length := by
    rw [← hchildren, List.length_reverse, List.length_map, List.length_take,
      Nat.min_eq_left hlen]
  have hsame : rs.length = (ParseTree.nodesAll c.values).length := by
    simpa using (congrArg List.length h.nodes).symm
  refine ⟨?_, ?_, ?_, ?_⟩
  · rw [hvalues', ← h.leaves, hvalues]
    simp
  · have htrees := List.forall₂_reverse_iff.1 h.trees
    have hunder := List.forall₂_drop production.length htrees
    rw [hc.values, hc.symbols, ← List.map_drop, ← List.map_drop] at hunder
    rw [values, symbols, List.forall₂_reverse_iff, hc'.values, hc'.symbols]
    exact .cons (.node hp hlength) hunder
  · rw [hvalues', List.map_append, ← h.nodes, hvalues, hreduction]
    simp
  · have hnodes : ParseTree.nodesAll c'.values =
        ParseTree.nodesAll c.values ++ [(p, children)] := by
      rw [hvalues', hvalues]
      simp
    rw [hcontext, htold, h.notices, hnodes, List.zipWith_append hsame, List.flatten_append,
      List.append_assoc, hreduction]
    rfl

theorem AccountsFor.reduces (hm : g.semantics.BuildsTrees g.table)
    (hlog : g.semantics.Reports log) {x : SymbolId} {rs' : List Reduction} (hc : c.Holds fs)
    (h : AccountsFor g log context ts rs c) (hr : Reduces g x c rs' c') :
    (∃ fs', c'.Holds fs') ∧ AccountsFor g log context ts (rs ++ rs') c' := by
  induction hr generalizing fs rs with
  | refl c => exact ⟨⟨fs, hc⟩, by rwa [List.append_nil]⟩
  | @step c c₁ c₂ p r rs' called made rest ih =>
    obtain ⟨production, target, -, -, -, -, -, -, hc₁⟩ := hc.completed made
    have hrest := ih hc₁ (h.completed hm hlog hc made)
    rwa [List.append_assoc, List.singleton_append] at hrest

/-- A token that is shifted is one more tree, with no nodes. -/
theorem AccountsFor.shift (hm : g.semantics.BuildsTrees g.table) {x : SymbolId} {t : Token}
    (h : AccountsFor g log context ts rs c) (hknown : g.terminal? t.kind = some x) (q : StateId)
    (l : Location) : AccountsFor g log context (ts ++ [t]) rs (c.shift g q x t l) := by
  have hvalues : (c.shift g q x t l).values = c.values ++ [.leaf t] := by
    rw [values, ← hm.token t]
    exact List.reverse_cons
  have hsymbols : (c.shift g q x t l).symbols = c.symbols ++ [x] := List.reverse_cons
  have hnodes : ParseTree.nodesAll (c.shift g q x t l).values = ParseTree.nodesAll c.values := by
    rw [hvalues]
    simp
  refine ⟨?_, ?_, ?_, ?_⟩
  · rw [hvalues, ← h.leaves]
    simp
  · rw [hvalues, hsymbols]
    exact List.rel_append h.trees (.cons (.leaf hknown) .nil)
  · rw [hnodes, h.nodes]
  · rw [hnodes]
    exact h.notices

/-! ## Runs -/

/-- **The values on the stack account for everything.**  Let any tables be run with a semantics
that builds trees, and any tokens be pushed, some of which may fail.  Unless a reduced symbol has
led nowhere, the leaves of the values are the tokens that were shifted, in order, each value is the
tree of its symbol, and the context has been told of their nodes, each after those below it, and of
nothing else. -/
theorem accountsFor_of_reads (hm : g.semantics.BuildsTrees g.table)
    (hlog : g.semantics.Reports log) (h : Reads g context ts rs c) :
    AccountsFor g log context ts rs c := by
  suffices hboth : (∃ fs, c.Holds fs) ∧ AccountsFor g log context ts rs c from hboth.2
  induction h with
  | start => exact ⟨⟨[], holds_start context⟩, accountsFor_start context⟩
  | shifted _ pushed shifted ih =>
    obtain ⟨⟨fs, hc⟩, h⟩ := ih
    cases pushes_of_push pushed with
    | shifted known reduced called =>
      obtain ⟨⟨fs', hc'⟩, h'⟩ := h.reduces hm hlog hc reduced
      exact ⟨⟨_, hc'.shift _ _ _ _⟩, h'.shift hm known _ _⟩
    | unknown => cases shifted
    | unexpected => cases shifted
    | stuck => cases shifted
  | failed _ pushed failed found ih =>
    obtain ⟨⟨fs, hc⟩, h⟩ := ih
    cases pushes_of_push pushed with
    | unknown => exact ⟨⟨fs, hc⟩, by rwa [List.append_nil]⟩
    | shifted => cases failed
    | unexpected _ reduced => exact h.reduces hm hlog hc reduced
    | stuck _ settled =>
      cases settled with
      | refused reduced => exact h.reduces hm hlog hc reduced
      | stranded => exact absurd ⟨_, _, _, (Except.error.inj failed).symm⟩ found

/-! ## An example -/

/-- The semantics that builds the trees and writes down what the context is told. -/
def reportedTrees : Semantics (List (Notice ParseTree)) ParseTree where
  ofToken := .leaf
  blank := .node 0 []
  reducer? p := some fun log values _ => (log, .node p values)
  started log p values l := log ++ [.started p values l]
  ended log p value l := log ++ [.ended p value l]

theorem reportedTrees_buildsTrees (t : ParseTable) : reportedTrees.BuildsTrees t :=
  ⟨fun _ => rfl, fun _ => ⟨_, rfl, fun _ _ _ => rfl⟩⟩

theorem reportedTrees_reports : reportedTrees.Reports id where
  started _ _ _ _ := rfl
  ended _ _ _ _ := rfl
  reducer h _ _ _ := by
    obtain rfl := Option.some.inj h
    rfl

/-- The values after a word, a comma that lists do not have, and another word, which makes a list of
the first one. -/
theorem accountsFor_lists :
    reportedTrees.BuildsTrees .lists ∧ reportedTrees.Reports id ∧
      ∃ rs c, Reads ⟨.lists, reportedTrees⟩ [] [wordAt 0, wordAt 4] rs c ∧
        c.values = [.node 0 [.leaf (wordAt 0)], .leaf (wordAt 4)] ∧
        AccountsFor ⟨.lists, reportedTrees⟩ id [] [wordAt 0, wordAt 4] rs c := by
  let g : Grammar (List (Notice ParseTree)) ParseTree := ⟨.lists, reportedTrees⟩
  let l : Location := .point default
  obtain ⟨turn₁, h₁, hok₁, hc₁⟩ : ∃ turn, (start []).push g 1 (wordAt 0) = some turn ∧
      turn.result = .ok () ∧
      turn.after = ⟨[], [2], [1], [.leaf (wordAt 0)], [l], default⟩ := by
    simp [push, g, lists_terminal?_identifier, wordAt, settle, state, start,
      ParseTable.lists_action?, initialState, shift, enter, siteOf, Location.point,
      reportedTrees, l]
  obtain ⟨turn₂, h₂, hc₂, hfault⟩ : ∃ turn,
      turn₁.after.push g 1 (Token.mark .comma 2) = some turn ∧
      turn.after = turn₁.after ∧ turn.result = .error (.invalidToken .comma l) := by
    simp [push, g, lists_terminal?_comma, Token.mark, siteOf, hc₁, l]
  obtain ⟨turn₃, h₃, hok₃, hc₃⟩ : ∃ turn, turn₂.after.push g 2 (wordAt 4) = some turn ∧
      turn.result = .ok () ∧
      turn.after.values = [.node 0 [.leaf (wordAt 0)], .leaf (wordAt 4)] := by
    simp [push, g, lists_terminal?_identifier, wordAt, settle, state, hc₂, hc₁,
      ParseTable.lists_action?, reduce, ParseTable.lists_production?, ParseTable.lists_goto?,
      initialState, shift, enter, leave, values, Semantics.reduce, reportedTrees]
  have hread₁ : Reads g [] [wordAt 0] _ turn₁.after := .shifted .start h₁ hok₁
  have hread₂ : Reads g [] [wordAt 0] _ turn₂.after := .failed hread₁ h₂ hfault (by
    rintro ⟨_, _, _, hfault⟩
    cases hfault)
  have hread : Reads g [] [wordAt 0, wordAt 4] _ turn₃.after := .shifted hread₂ h₃ hok₃
  exact ⟨reportedTrees_buildsTrees _, reportedTrees_reports, _, turn₃.after, hread, hc₃,
    accountsFor_of_reads (reportedTrees_buildsTrees _) reportedTrees_reports hread⟩

end Configuration

end ScriptReader
