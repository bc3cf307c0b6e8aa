import ScriptReader.Proofs.Grammar.Spelling

/-!
# Tables survive being written out

The entries of tables are written as `ParseTable.ofEncoded` reads them: each action and each goto
under the numbers of its state and its symbol, and each production under the name of its left-hand
side.  Reading all of them gives tables that answer alike.

## Main Definitions

* `ParseTable.encodeAction`, `ParseTable.encodeGoto`, `ParseTable.encodeProduction` — entries as
  text
* `ParseTable.Alike` — tables that give the same answers

## Main Statements

* `ParseTable.decodeKey_encodeKey` — the key of an entry is read back
* `ParseTable.exists_alike_ofEncoded` — tables that are written out, in any order, are read back
-/

namespace ScriptReader

namespace ParseTable

variable {t : ParseTable} {α : Type}

/-! ## Entries as text -/

/-- The key of an entry as text. -/
def encodeKey (key : StateId × SymbolId) : String := s!"{key.1}-{key.2}"

/-- An action with its key, as text. -/
def encodeAction (entry : (StateId × SymbolId) × Action) : String × String :=
  (encodeKey entry.1, toString entry.2)

/-- A goto with its key as text. -/
def encodeGoto (entry : (StateId × SymbolId) × StateId) : String × StateId :=
  (encodeKey entry.1, entry.2)

/-- A production by the name of its left-hand side. -/
def encodeProduction (symbols : Symbols) (production : Production) : String × Nat :=
  (symbols.name production.lhs, production.length)

theorem toList_encodeKey (p : StateId) (x : SymbolId) : (encodeKey (p, x)).toList =
    (toString p.toNat).toList ++ '-' :: (toString x.toNat).toList := by
  rw [encodeKey]
  simp [toString]

example : encodeAction ((12, 0), .reduce 3) = ("12-0", "r3") := by decide

/-- The key of an entry is written as it is spelled. -/
theorem spellsKey_encodeKey (p : StateId) (x : SymbolId) : SpellsKey (encodeKey (p, x)) p x := by
  have first : '-' ∉ (toString p.toNat).toList := fun hmem =>
    absurd (Numeral.isDigit_of_mem_toString hmem) (by decide)
  exact .intro (toList_encodeKey p x) first (Numeral.denotes_toString _)
    (Numeral.denotes_toString _)

/-- The key of an entry for a symbol of the tables is read back. -/
theorem decodeKey_encodeKey {x : SymbolId} (p : StateId) (hx : t.symbols.Knows x) :
    t.decodeKey (encodeKey (p, x)) = .ok (p, x) :=
  ((spellsKey_encodeKey p x).decodeKey_eq t).trans (if_pos hx)

/-! ## All entries of a kind -/

theorem foldl_insert_eq_insertMany (m : Std.HashMap (StateId × SymbolId) α)
    (entries : List ((StateId × SymbolId) × α)) :
    entries.foldl (fun m entry => m.insert entry.1 entry.2) m = m.insertMany entries := by
  induction entries generalizing m with
  | nil => exact Std.HashMap.insertMany_nil.symm
  | cons entry entries ih =>
    rw [List.foldl_cons, ih, Std.HashMap.insertMany_cons]

/-- The order in which the entries of a map are put into another does not matter. -/
theorem getElem?_insertMany_of_perm {m : Std.HashMap (StateId × SymbolId) α}
    {entries : List ((StateId × SymbolId) × α)} (h : entries.Perm m.toList)
    (key : StateId × SymbolId) :
    (({} : Std.HashMap (StateId × SymbolId) α).insertMany entries)[key]? = m[key]? := by
  have hdistinct : entries.Pairwise fun a b => (a.1 == b.1) = false :=
    (h.pairwise_iff fun hab => by rwa [BEq.comm]).2 Std.HashMap.distinct_keys_toList
  cases hkey : m[key]? with
  | some a =>
    have hmem : (key, a) ∈ entries :=
      h.mem_iff.2 (Std.HashMap.mem_toList_iff_getElem?_eq_some.2 hkey)
    exact Std.HashMap.getElem?_insertMany_list_of_mem BEq.rfl hdistinct hmem
  | none =>
    have hnew : (entries.map Prod.fst).contains key = false := by
      rw [Bool.eq_false_iff, ne_eq, List.contains_iff_mem]
      intro hmem
      obtain ⟨⟨key', a⟩, hentry, rfl⟩ := List.mem_map.1 hmem
      have hold := Std.HashMap.mem_toList_iff_getElem?_eq_some.1 (h.mem_iff.1 hentry)
      cases hold.symm.trans hkey
    rw [Std.HashMap.getElem?_insertMany_list_of_contains_eq_false hnew]
    exact Std.HashMap.getElem?_empty

/-! ## Whole tables -/

/-- Tables that give the same answers. -/
structure Alike (t t' : ParseTable) : Prop where
  /-- They speak of the same symbols. -/
  symbols : t'.symbols = t.symbols
  /-- They call for the same actions. -/
  action? : ∀ p x, t'.action? p x = t.action? p x
  /-- They lead from a state to the same states. -/
  goto? : ∀ p x, t'.goto? p x = t.goto? p x
  /-- They have the same productions. -/
  production? : ∀ p, t'.production? p = t.production? p

/-- An action for a terminal of the tables is read back. -/
theorem addAction_encodeAction {p : StateId} {x : SymbolId} {a : Action} (hx : t.symbols.Knows x)
    (hterminal : t.symbols.isTerminal x = true) (ha : a ≠ .reduce 0) :
    t.addAction (encodeAction ((p, x), a)) =
      .ok { t with actions := t.actions.insert (p, x) a } := by
  rw [addAction, encodeAction, decodeKey_encodeKey p hx, Action.parse_toString ha]
  exact setAction_of_isTerminal hterminal p a

/-- A goto for a nonterminal of the tables is read back. -/
theorem addGoto_encodeGoto {p q : StateId} {x : SymbolId} (hx : t.symbols.Knows x)
    (hnonterminal : t.symbols.isTerminal x = false) :
    t.addGoto (encodeGoto ((p, x), q)) = .ok { t with gotos := t.gotos.insert (p, x) q } := by
  rw [addGoto, encodeGoto, decodeKey_encodeKey p hx]
  exact setGoto_of_not_isTerminal hnonterminal p q

/-- If each entry of a list comes into the tables as `put` says, so do all of them. -/
theorem foldlM_map_eq_ok {β γ : Type} {add : ParseTable → β → Except LoadError ParseTable}
    {encode : α → β} (table : γ → ParseTable) (put : γ → α → γ) {entries : List α}
    (step : ∀ entry ∈ entries, ∀ c, add (table c) (encode entry) = .ok (table (put c entry)))
    (c : γ) :
    (entries.map encode).foldlM add (table c) = .ok (table (entries.foldl put c)) := by
  induction entries generalizing c with
  | nil => rfl
  | cons entry entries ih =>
    obtain ⟨hfirst, hrest⟩ := List.forall_mem_cons.1 step
    rw [List.map_cons, List.foldlM_cons, hfirst c]
    exact ih hrest (put c entry)

/-- Actions for terminals of the tables are read back. -/
theorem foldlM_addAction {entries : List ((StateId × SymbolId) × Action)}
    (hentries : ∀ entry ∈ entries, (t.symbols.Knows entry.1.2 ∧
      t.symbols.isTerminal entry.1.2 = true) ∧ entry.2 ≠ .reduce 0) :
    (entries.map encodeAction).foldlM addAction t =
      .ok { t with actions := t.actions.insertMany entries } := by
  rw [← foldl_insert_eq_insertMany]
  refine foldlM_map_eq_ok (fun m => { t with actions := m })
    (fun m (entry : (StateId × SymbolId) × Action) => m.insert entry.1 entry.2) ?_ t.actions
  intro ⟨⟨p, x⟩, a⟩ hentry m
  obtain ⟨⟨hx, hterminal⟩, ha⟩ := hentries _ hentry
  exact addAction_encodeAction (t := { t with actions := m }) hx hterminal ha

/-- Gotos for nonterminals of the tables are read back. -/
theorem foldlM_addGoto {entries : List ((StateId × SymbolId) × StateId)}
    (hentries : ∀ entry ∈ entries, t.symbols.Knows entry.1.2 ∧
      t.symbols.isTerminal entry.1.2 = false) :
    (entries.map encodeGoto).foldlM addGoto t =
      .ok { t with gotos := t.gotos.insertMany entries } := by
  rw [← foldl_insert_eq_insertMany]
  refine foldlM_map_eq_ok (fun m => { t with gotos := m })
    (fun m (entry : (StateId × SymbolId) × StateId) => m.insert entry.1 entry.2) ?_ t.gotos
  intro ⟨⟨p, x⟩, q⟩ hentry m
  obtain ⟨hx, hnonterminal⟩ := hentries _ hentry
  exact addGoto_encodeGoto (t := { t with gotos := m }) hx hnonterminal

/-- Productions of nonterminals of the tables are read back, if no name is numbered twice. -/
theorem foldlM_withProduction {productions : List Production}
    (hnodup : t.symbols.names.toList.Nodup)
    (hproductions : ∀ production ∈ productions, t.symbols.Knows production.lhs ∧
      t.symbols.isTerminal production.lhs = false) :
    (productions.map (encodeProduction t.symbols)).foldlM (fun t p => t.withProduction p.1 p.2) t =
      .ok { t with productions := t.productions ++ productions.toArray } := by
  rw [← List.map_id productions, ← List.foldl_push_eq_append, List.map_id]
  refine foldlM_map_eq_ok (fun ps => { t with productions := ps }) Array.push ?_ t.productions
  intro ⟨lhs, length⟩ hproduction ps
  obtain ⟨hlhs, hnonterminal⟩ := hproductions _ hproduction
  exact withProduction_of_get? (t := { t with productions := ps })
    (Symbols.get?_name hnodup hlhs) hnonterminal length

theorem ofEncoded_eq_ok {symbols : Symbols} {actions : List (String × String)}
    {gotos : List (String × StateId)} {productions : List (String × Nat)} {t₁ t₂ t₃ : ParseTable}
    (hactions : actions.foldlM addAction (ofSymbols symbols) = .ok t₁)
    (hgotos : gotos.foldlM addGoto t₁ = .ok t₂)
    (hproductions : productions.foldlM (fun t p => t.withProduction p.1 p.2) t₂ = .ok t₃) :
    ofEncoded symbols actions gotos productions = .ok t₃ := by
  rw [ofEncoded, hactions]
  show gotos.foldlM addGoto t₁ >>= _ = _
  rw [hgotos]
  exact hproductions

/-- **Tables that are written out, in any order, are read back.** -/
theorem exists_alike_ofEncoded {terminals nonterminals : List String} (ht : t.Built)
    (hsymbols : t.symbols = .ofNames terminals nonterminals)
    (hreduce : ∀ p x, t.action? p x ≠ some (.reduce 0))
    {actions : List ((StateId × SymbolId) × Action)} (hactions : actions.Perm t.actions.toList)
    {gotos : List ((StateId × SymbolId) × StateId)} (hgotos : gotos.Perm t.gotos.toList) :
    ∃ t', ofEncoded t.symbols (actions.map encodeAction) (gotos.map encodeGoto)
        (t.productions.toList.map (encodeProduction t.symbols)) = .ok t' ∧ t.Alike t' := by
  have hclosed := ht.closed
  have hnodup : t.symbols.names.toList.Nodup := hsymbols ▸ Symbols.nodup_names_ofNames _ _
  have hreadActions : (actions.map encodeAction).foldlM addAction (ofSymbols t.symbols) =
      .ok { symbols := t.symbols, actions := Std.HashMap.insertMany {} actions } := by
    refine foldlM_addAction fun entry hentry => ?_
    have hact : t.action? entry.1.1 entry.1.2 = some entry.2 :=
      Std.HashMap.mem_toList_iff_getElem?_eq_some.1 (hactions.mem_iff.1 hentry)
    exact ⟨hclosed.action hact, fun hzero => hreduce _ _ (hzero ▸ hact)⟩
  have hreadGotos (m : Std.HashMap (StateId × SymbolId) Action) :
      (gotos.map encodeGoto).foldlM addGoto { symbols := t.symbols, actions := m } =
        .ok { symbols := t.symbols, actions := m, gotos := Std.HashMap.insertMany {} gotos } := by
    refine foldlM_addGoto fun entry hentry => ?_
    have hgoto : t.goto? entry.1.1 entry.1.2 = some entry.2 :=
      Std.HashMap.mem_toList_iff_getElem?_eq_some.1 (hgotos.mem_iff.1 hentry)
    exact hclosed.goto hgoto
  refine ⟨⟨t.symbols, Std.HashMap.insertMany {} actions, Std.HashMap.insertMany {} gotos,
    #[] ++ t.productions.toList.toArray⟩, ?_, ?_⟩
  · exact ofEncoded_eq_ok hreadActions (hreadGotos _)
      (foldlM_withProduction hnodup hclosed.production)
  · exact {
      symbols := rfl
      action? := fun p x => getElem?_insertMany_of_perm hactions (p, x)
      goto? := fun p x => getElem?_insertMany_of_perm hgotos (p, x)
      production? := fun p => by simp [production?] }

/-- The tables of the grammar whose one sentence is `id`. -/
def single : ParseTable where
  symbols := Symbols.ofNames ["id"] ["list"]
  actions := ((({} : Std.HashMap _ _).insert (0, 1) (.shift 2)).insert (1, 0) .accept).insert
    (2, 0) (.reduce 1)
  gotos := ({} : Std.HashMap _ _).insert (0, 2) 1
  productions := #[⟨2, 1⟩, ⟨2, 1⟩]

theorem single_built : single.Built := by
  have h : Built (ofSymbols lists.symbols) := .ofSymbols _
  have h := h.insertAction 0 "id" (.shift 2) lists_get?_id (lists_isTerminal 1)
  have h := h.insertAction 1 "$" .accept lists_get?_end (lists_isTerminal 0)
  have h := h.insertAction 2 "$" (.reduce 1) lists_get?_end (lists_isTerminal 0)
  have h := h.insertGoto 0 "list" 1 lists_get?_list (lists_isTerminal 2)
  have h := h.pushProduction "list" 1 lists_get?_list (lists_isTerminal 2)
  exact h.pushProduction "list" 1 lists_get?_list (lists_isTerminal 2)

theorem single_action?_ne (p : StateId) (x : SymbolId) :
    single.action? p x ≠ some (.reduce 0) := by
  simp only [single, action?, Std.HashMap.getElem?_insert]
  split_ifs <;> simp

theorem exists_alike_ofEncoded_single :
    ∃ t', ofEncoded single.symbols (single.actions.toList.reverse.map encodeAction)
        (single.gotos.toList.reverse.map encodeGoto)
        (single.productions.toList.map (encodeProduction single.symbols)) = .ok t' ∧
      single.Alike t' :=
  exists_alike_ofEncoded single_built rfl single_action?_ne (List.reverse_perm _)
    (List.reverse_perm _)

end ParseTable

end ScriptReader
