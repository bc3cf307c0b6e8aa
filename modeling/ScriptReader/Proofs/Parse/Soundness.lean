import Mathlib.Data.List.Forall2
import ScriptReader.Proofs.Grammar.Derivation
import ScriptReader.Proofs.Parse.Paths

/-!
# What is accepted is derived

Tables come from outside, and whether they fit a grammar is a condition on the automaton they
describe: whenever a reduction is called for, the symbols read last are the right-hand side of its
production, and the end of input is accepted only when nothing but the start symbol has been read.
Under that condition every input that is accepted is derived from the start symbol, and a semantics
that builds trees yields a parse tree of it.

## Main Definitions

* `ParseTable.Path` — the words that lead from the initial state to a state
* `ParseTable.Consistent` — the condition on the tables
* `Configuration.Parsed` — the frames stand for trees whose leaves are the tokens read so far
* `Semantics.Represents` — the values of a semantics stand for trees
* `Semantics.BuildsTrees` — the values of a semantics are trees

## Main Statements

* `Configuration.exists_tree_of_accepted` — what is accepted has a tree, which its value stands for
* `Grammar.sound_of_consistent` — the main result

## Design Notes

Whether an input is accepted does not depend on the semantics, but only some semantics keep the
trees.  The invariant is therefore about trees that exist beside the values, and `Represents` says
how far the values follow them: not at all for an arbitrary semantics, entirely for one that builds
trees.
-/

namespace ScriptReader

/-! ## The automaton of a table -/

namespace ParseTable

variable {t : ParseTable} {rhs : ProductionId → List SymbolId} {S : SymbolId}

/-- An edge of the automaton: a shift or a goto. -/
inductive Edge (t : ParseTable) (p : StateId) (x : SymbolId) (q : StateId) : Prop
  | shift (found : t.action? p x = some (.shift q))
  | goto (found : t.goto? p x = some q)

/-- The word labels a path from the initial state to the state. -/
inductive Path (t : ParseTable) : List SymbolId → StateId → Prop
  | start : Path t [] Configuration.initialState
  | step {word : List SymbolId} {p q : StateId} {x : SymbolId} (before : Path t word p)
      (edge : t.Edge p x q) : Path t (word ++ [x]) q

/-- The tables fit the productions with the right-hand sides `rhs` and the start symbol `S`. -/
structure Consistent (t : ParseTable) (rhs : ProductionId → List SymbolId) (S : SymbolId) :
    Prop where
  /-- The table knows the lengths of the right-hand sides. -/
  length : ∀ {p production}, t.production? p = some production →
    (rhs p).length = production.length
  /-- Where a production is reduced, its right-hand side has just been read. -/
  reduce : ∀ {s x p production}, t.action? s x = some (.reduce p) →
    t.production? p = some production → ∀ word, t.Path word s → rhs p <:+ word
  /-- Where the end of input is accepted, the start symbol has been read and nothing else. -/
  accept : ∀ {s}, t.action? s Symbols.endId = some .accept → ∀ word, t.Path word s → word = [S]

theorem Leads.edge {p q : StateId} {x : SymbolId} (h : t.Leads p x q) : t.Edge p x q := by
  cases h with
  | shift _ _ found => exact .shift found
  | goto found => exact .goto found

end ParseTable

/-- Values stand for trees, in the sense of `R`, if those of tokens do and reducing preserves it. -/
structure Semantics.Represents {κ ν : Type} (m : Semantics κ ν) (t : ParseTable)
    (R : ν → ParseTree → Prop) : Prop where
  /-- The value of a token stands for its leaf. -/
  token : ∀ u, R (m.ofToken u) (.leaf u)
  /-- The value of a production stands for its node. -/
  node : ∀ {p production values trees} (context : κ) (l : Location),
    t.production? p = some production → List.Forall₂ R values trees →
    R (m.reduce context p values l).2 (.node p trees)

/-- Tokens are leaves, and every production has a reducer that makes its node. -/
structure Semantics.BuildsTrees {κ : Type} (m : Semantics κ ParseTree) (t : ParseTable) : Prop where
  /-- The value of a token is its leaf. -/
  token : ∀ u, m.ofToken u = .leaf u
  /-- The reducer of a production makes its node, whatever it does to the context. -/
  node : ∀ {p production}, t.production? p = some production →
    ∃ reducer, m.reducer? p = some reducer ∧
      ∀ context values l, (reducer context values l).2 = .node p values

theorem Semantics.represents_true {κ ν : Type} (m : Semantics κ ν) (t : ParseTable) :
    m.Represents t fun _ _ => True :=
  ⟨fun _ => trivial, fun _ _ _ _ => trivial⟩

theorem Semantics.BuildsTrees.represents {κ : Type} {m : Semantics κ ParseTree} {t : ParseTable}
    (h : m.BuildsTrees t) : m.Represents t Eq where
  token := h.token
  node context l found heq := by
    obtain rfl := List.forall₂_eq_eq_eq ▸ heq
    obtain ⟨reducer, hreducer, hnode⟩ := h.node found
    simp only [Semantics.reduce, hreducer, hnode]

namespace Configuration

variable {κ ν : Type} {g : Grammar κ ν} {c c' : Configuration κ ν} {fs : List (Frame ν)}
variable {rhs : ProductionId → List SymbolId} {S : SymbolId} {R : ν → ParseTree → Prop}
variable {ts : List Token}

/-! ## The invariant -/

/-- The word of traced frames leads to their state. -/
theorem Traced.path {t : ParseTable} (h : Traced t fs) :
    t.Path (fs.map Frame.symbol).reverse (stateOf fs) := by
  induction h with
  | nil => exact .start
  | cons _ leads ih =>
    rw [List.map_cons, List.reverse_cons]
    exact .step ih leads.edge

/-- Frames stand for trees whose leaves, from the first frame read to the last, are the tokens. -/
inductive Parsed (g : Grammar κ ν) (rhs : ProductionId → List SymbolId)
    (R : ν → ParseTree → Prop) : List Token → List (Frame ν) → Prop
  | nil : Parsed g rhs R [] []
  | cons {ts : List Token} {f : Frame ν} {fs : List (Frame ν)} {tree : ParseTree}
      (below : Parsed g rhs R ts fs) (value : R f.value tree)
      (root : tree.root g = some f.symbol) (wellFormed : tree.WellFormed g rhs) :
      Parsed g rhs R (ts ++ tree.leaves) (f :: fs)

/-- The last `n` frames stand for trees of their own, and the others for the tokens before. -/
theorem Parsed.split (h : Parsed g rhs R ts fs) (n : Nat) :
    ∃ us trees, ts = us ++ ParseTree.leavesAll trees ∧ Parsed g rhs R us (fs.drop n) ∧
      List.Forall₂ R ((fs.take n).map Frame.value).reverse trees ∧
      trees.map (ParseTree.root g) = ((fs.take n).map Frame.symbol).reverse.map some ∧
      ∀ tree ∈ trees, tree.WellFormed g rhs := by
  induction h generalizing n with
  | nil => exact ⟨[], [], rfl, by simpa using .nil, by simp, by simp, by simp⟩
  | @cons ts f fs tree below value root wellFormed ih =>
    cases n with
    | zero => exact ⟨_, [], (List.append_nil _).symm, below.cons value root wellFormed, by simp⟩
    | succ n =>
      obtain ⟨us, trees, rfl, hus, hvalues, hroots, hwell⟩ := ih n
      refine ⟨us, trees ++ [tree], by simp, hus, ?_, by simp [hroots, root], ?_⟩
      · rw [List.take_succ_cons, List.map_cons, List.reverse_cons]
        exact List.rel_append hvalues (.cons value .nil)
      · intro u hu
        rcases List.mem_append.1 hu with hu | hu
        · exact hwell u hu
        · rwa [List.mem_singleton.1 hu]

/-- The stacks hold traced frames that stand for trees over the tokens `ts`. -/
def Stands (g : Grammar κ ν) (rhs : ProductionId → List SymbolId) (R : ν → ParseTree → Prop)
    (ts : List Token) (c : Configuration κ ν) : Prop :=
  ∃ fs, c.Holds fs ∧ Traced g.table fs ∧ Parsed g rhs R ts fs

theorem stands_start (context : κ) : Stands g rhs R [] (start context : Configuration κ ν) :=
  ⟨[], holds_start context, .nil, .nil⟩

/-- A reduction builds a tree from the trees of the symbols that it takes off: these are the
right-hand side of its production, since the tables call for it only where that has been read. -/
theorem Stands.completed (ht : g.table.Consistent rhs S) (hR : g.semantics.Represents g.table R)
    {x : SymbolId} {p : ProductionId} {r : Reduction} (h : Stands g rhs R ts c)
    (hcalled : g.table.action? c.state x = some (.reduce p))
    (hmade : c.reduce g p = .completed r c') : Stands g rhs R ts c' := by
  obtain ⟨fs, hc, htraced, hparsed⟩ := h
  obtain ⟨production, target, hp, hlen, hgoto, -, -, -, hc'⟩ := hc.completed hmade
  obtain ⟨us, trees, rfl, hus, hvalues, hroots, hwell⟩ := hparsed.split production.length
  have hrhs : ((fs.take production.length).map Frame.symbol).reverse = rhs p := by
    rw [hc.state_eq] at hcalled
    have hsuffix : rhs p <:+ (fs.map Frame.symbol).reverse :=
      ht.reduce hcalled hp _ htraced.path
    have htop : ((fs.take production.length).map Frame.symbol).reverse <:+
        (fs.map Frame.symbol).reverse := by
      rw [List.reverse_suffix]
      exact (List.take_prefix _ _).map _
    refine (List.suffix_of_suffix_length_le htop hsuffix ?_).eq_of_length ?_
    all_goals simp [ht.length hp, Nat.min_eq_left hlen]
  have hnode : R (c.made g p fs production).2 (.node p trees) :=
    hR.node c.context (c.placeOf fs production) hp hvalues
  have hroot : (ParseTree.node p trees).root g = some production.lhs := by
    simp [ParseTree.root, hp]
  exact ⟨_, hc', .cons (htraced.drop _) (.goto hgoto),
    .cons hus hnode hroot (.node hp (hrhs ▸ hroots) hwell)⟩

theorem Stands.reduces (ht : g.table.Consistent rhs S) (hR : g.semantics.Represents g.table R)
    {x : SymbolId} {rs : List Reduction} (h : Stands g rhs R ts c) (hr : Reduces g x c rs c') :
    Stands g rhs R ts c' :=
  hr.invariant (P := Stands g rhs R ts) (fun hc hcalled hmade => hc.completed ht hR hcalled hmade) h

/-- A token that is shifted is one more leaf. -/
theorem Stands.shift (hR : g.semantics.Represents g.table R) {x : SymbolId} {q : StateId}
    {t : Token} {l : Location} (h : Stands g rhs R ts c) (hknown : g.terminal? t.kind = some x)
    (hshift : g.table.action? c.state x = some (.shift q)) :
    Stands g rhs R (ts ++ [t]) (c.shift g q x t l) := by
  obtain ⟨fs, hc, htraced, hparsed⟩ := h
  obtain ⟨hterminal, hend⟩ := terminal_of_terminal? hknown
  rw [hc.state_eq] at hshift
  have hroot : (ParseTree.leaf t).root g = some x := hknown
  exact ⟨_, hc.shift q x t l, .cons htraced (.shift hterminal hend hshift),
    .cons hparsed (hR.token t) hroot (.leaf t)⟩

theorem Stands.pushAll (ht : g.table.Consistent rhs S) (hR : g.semantics.Represents g.table R)
    {patience : Nat} {us : List Token} (h : Stands g rhs R ts c)
    (hus : c.pushAll g patience us = some (c', .ok ())) : Stands g rhs R (ts ++ us) c' := by
  induction us generalizing c ts with
  | nil =>
    obtain ⟨rfl, -⟩ := Prod.mk.inj (Option.some.inj hus)
    rwa [List.append_nil]
  | cons u us ih =>
    rw [Configuration.pushAll] at hus
    split at hus
    case h_1 => cases hus
    case h_2 turn hturn =>
      split at hus
      case h_1 => cases hus
      case h_2 hok =>
        cases pushes_of_push hturn with
        | shifted known reduced called =>
          have hshifted := (h.reduces ht hR reduced).shift (l := c.siteOf u) hR known called
          simpa using ih hshifted hus
        | unknown => cases hok
        | unexpected => cases hok
        | stuck => cases hok

/-! ## Acceptance -/

/-- **What is accepted has a tree**: its root is the start symbol, its leaves are the tokens, and
the value of the parse stands for it. -/
theorem exists_tree_of_accepted (ht : g.table.Consistent rhs S)
    (hR : g.semantics.Represents g.table R) {patience : Nat} {context context' : κ} {v : ν}
    (h : g.parse patience context ts = some (context', .ok v)) :
    ∃ tree : ParseTree, R v tree ∧ tree.root g = some S ∧ tree.WellFormed g rhs ∧
      tree.leaves = ts := by
  rw [Grammar.parse] at h
  split at h
  case h_1 => cases h
  case h_2 => cases h
  case h_3 c hpushed =>
    obtain ⟨turn, hturn, hresult⟩ := Option.map_eq_some_iff.1 h
    have hstands : Stands g rhs R ts c := (stands_start context).pushAll ht hR hpushed
    cases finishes_of_finish hturn with
    | unexpected => cases hresult
    | stuck => cases hresult
    | @accepted rs c' reduced called =>
      obtain ⟨-, hv⟩ := Prod.mk.inj hresult
      obtain ⟨fs, hc', htraced, hparsed⟩ := hstands.reduces ht hR reduced
      rw [hc'.state_eq] at called
      have hword : (fs.map Frame.symbol).reverse = [S] := ht.accept called _ htraced.path
      -- Only one frame is left, and its value is that of the parse.
      obtain ⟨f, rfl, hsymbol⟩ : ∃ f, fs = [f] ∧ f.symbol = S :=
        List.map_eq_singleton_iff.1 (List.reverse_eq_iff.1 hword)
      cases hparsed with
      | @cons us _ _ tree below value root wellFormed =>
        cases below with
        | nil =>
          have hvalue : c'.value g = f.value := by rw [Configuration.value, hc'.values]; rfl
          obtain rfl : f.value = v := hvalue ▸ Except.ok.inj hv
          exact ⟨tree, value, hsymbol ▸ root, wellFormed, rfl⟩

end Configuration

/-- **The parser is sound for consistent tables.**  What it accepts is derived from the start
symbol, whatever the semantics.  With a semantics that builds trees the value is a parse tree: its
root is the start symbol, the children of each node are the right-hand side of its production, and
its leaves, from left to right, are the tokens. -/
theorem Grammar.sound_of_consistent {t : ParseTable} {rhs : ProductionId → List SymbolId}
    {S : SymbolId} (ht : t.Consistent rhs S) :
    (∀ {κ ν : Type} (m : Semantics κ ν) (patience : Nat) (context context' : κ) (ts : List Token)
      (v : ν), (Grammar.mk t m).parse patience context ts = some (context', .ok v) →
      ∃ word, ParseTree.Spells (Grammar.mk t m) word ts ∧ t.Derives rhs [S] word) ∧
    (∀ {κ : Type} (m : Semantics κ ParseTree), m.BuildsTrees t →
      ∀ (patience : Nat) (context context' : κ) (ts : List Token) (v : ParseTree),
        (Grammar.mk t m).parse patience context ts = some (context', .ok v) →
        v.root (Grammar.mk t m) = some S ∧ v.WellFormed (Grammar.mk t m) rhs ∧ v.leaves = ts) := by
  constructor
  · intro κ ν m patience context context' ts v h
    obtain ⟨tree, -, hroot, hwell, rfl⟩ :=
      Configuration.exists_tree_of_accepted ht (m.represents_true t) h
    exact hwell.derives hroot
  · intro κ m hm patience context context' ts v h
    obtain ⟨tree, rfl, hroot, hwell, hleaves⟩ :=
      Configuration.exists_tree_of_accepted ht hm.represents h
    exact ⟨hroot, hwell, hleaves⟩

/-! ## An example -/

/-- The right-hand sides of the productions of `ParseTable.lists`. -/
def listSides (p : ProductionId) : List SymbolId := if p = 0 then [1] else [2, 1]

theorem lists_path {word : List SymbolId} {q : StateId} (h : ParseTable.lists.Path word q) :
    (q = 0 ∧ word = []) ∨ (q = 1 ∧ word = [2]) ∨ (q = 2 ∧ word = [1]) ∨
      (q = 3 ∧ word = [2, 1]) := by
  induction h with
  | start => exact .inl ⟨rfl, rfl⟩
  | step _ edge ih =>
    cases edge with
    | shift found => rw [ParseTable.lists_action?] at found; grind
    | goto found => rw [ParseTable.lists_goto?] at found; grind

theorem lists_consistent : ParseTable.lists.Consistent listSides 2 where
  length h := by
    rw [ParseTable.lists_production?] at h
    grind [listSides]
  reduce {s x p production} hcalled _ word hword := by
    rw [ParseTable.lists_action?] at hcalled
    have hpaths := lists_path hword
    have hside : listSides p = word := by grind [listSides]
    exact hside ▸ List.suffix_rfl
  accept hcalled word hword := by
    rw [ParseTable.lists_action?] at hcalled
    have hpaths := lists_path hword
    grind

/-- The semantics that builds the trees and does nothing else. -/
def treesOnly : Semantics Unit ParseTree where
  ofToken := .leaf
  blank := .node 0 []
  reducer? p := some fun context values _ => (context, .node p values)

theorem treesOnly_buildsTrees (t : ParseTable) : treesOnly.BuildsTrees t :=
  ⟨fun _ => rfl, fun _ => ⟨_, rfl, fun _ _ _ => rfl⟩⟩

/-- A list of three words is derived from the start symbol, and its value is a parse tree. -/
theorem sound_lists :
    ParseTable.lists.Consistent listSides 2 ∧ treesOnly.BuildsTrees .lists ∧
      ∃ (ts : List Token) (v : ParseTree), ts.length = 3 ∧
        (Grammar.mk .lists treesOnly).parse 2 () ts = some ((), .ok v) ∧
        (∃ word, ParseTree.Spells (Grammar.mk .lists treesOnly) word ts ∧
          ParseTable.lists.Derives listSides [2] word) ∧
        v.root (Grammar.mk .lists treesOnly) = some 2 ∧
        v.WellFormed (Grammar.mk .lists treesOnly) listSides ∧ v.leaves = ts := by
  let ts : List Token :=
    [Configuration.wordAt 0, Configuration.wordAt 2, Configuration.wordAt 4]
  obtain ⟨v, hv⟩ : ∃ v, (Grammar.mk .lists treesOnly).parse 2 () ts = some ((), .ok v) := by
    simp [Grammar.parse, Configuration.pushAll, Configuration.push, Configuration.finish,
      Configuration.lists_terminal?_identifier, Configuration.wordAt, Configuration.settle,
      Configuration.start, Configuration.state, ParseTable.lists_action?,
      Configuration.initialState, Configuration.shift, Configuration.enter, Configuration.leave,
      Configuration.reduce, ParseTable.lists_production?, ParseTable.lists_goto?,
      Configuration.extent, Semantics.reduce, treesOnly, Symbols.endId, Configuration.value,
      Except.map, ts]
  exact ⟨lists_consistent, treesOnly_buildsTrees _, ts, v, rfl, hv,
    (Grammar.sound_of_consistent lists_consistent).1 treesOnly 2 () () ts v hv,
    (Grammar.sound_of_consistent lists_consistent).2 treesOnly (treesOnly_buildsTrees _)
      2 () () ts v hv⟩

end ScriptReader
