import Mathlib.Tactic.SplitIfs
import ScriptReader.Grammar.ParseTable
import ScriptReader.Proofs.Grammar.Symbols

/-!
# Tables that can be made

Tables come into being in a few ways only: without entries, entry by entry, or loaded from text.
All of them check what an entry is keyed by, and so every table keeps terminals and nonterminals
apart.

## Main Definitions

* `ParseTable.Built` — the tables that can be made
* `ParseTable.Enters` — one more entry comes into a table
* `ParseTable.Closed` — entries are for symbols of the table
* `ParseTable.Sorted` — actions belong to terminals, and gotos to nonterminals
* `ParseTable.lists` — tables to show the results of this theory on

## Main Statements

* `ParseTable.Built.invariant` — what entries preserve holds of every table that can be made
* `ParseTable.Built.closed` — every table that can be made speaks of its own symbols only
* `ParseTable.Built.sorted` — every table that can be made keeps terminals and nonterminals apart
-/

namespace ScriptReader.ParseTable

variable {t t' : ParseTable}

/-- The tables that can be made: from symbols alone, by adding an entry to one, or by loading. -/
inductive Built : ParseTable → Prop
  | ofSymbols (symbols : Symbols) : Built (ofSymbols symbols)
  | withAction {t t' : ParseTable} (before : Built t) (state : StateId) (terminal : String)
      (action : Action) (added : t.withAction state terminal action = .ok t') : Built t'
  | withGoto {t t' : ParseTable} (before : Built t) (state : StateId) (nonterminal : String)
      (target : StateId) (added : t.withGoto state nonterminal target = .ok t') : Built t'
  | withProduction {t t' : ParseTable} (before : Built t) (lhs : String) (length : Nat)
      (added : t.withProduction lhs length = .ok t') : Built t'
  | ofEncoded {t : ParseTable} {symbols : Symbols} {actions : List (String × String)}
      {gotos : List (String × StateId)} {productions : List (String × Nat)}
      (loaded : ofEncoded symbols actions gotos productions = .ok t) : Built t

/-! ## One more entry -/

/-- The tables with one more entry.  The symbol that it is for is one that the tables know, a
terminal for an action and a nonterminal for anything else. -/
inductive Enters (t : ParseTable) : ParseTable → Prop
  | action (p : StateId) {x : SymbolId} (a : Action) (known : t.symbols.Knows x)
      (terminal : t.symbols.isTerminal x = true) :
      Enters t { t with actions := t.actions.insert (p, x) a }
  | goto (p : StateId) {x : SymbolId} (q : StateId) (known : t.symbols.Knows x)
      (nonterminal : t.symbols.isTerminal x = false) :
      Enters t { t with gotos := t.gotos.insert (p, x) q }
  | production {x : SymbolId} (length : Nat) (known : t.symbols.Knows x)
      (nonterminal : t.symbols.isTerminal x = false) :
      Enters t { t with productions := t.productions.push ⟨x, length⟩ }

theorem setAction_of_isTerminal {x : SymbolId} (hx : t.symbols.isTerminal x = true) (p : StateId)
    (a : Action) : t.setAction p x a = .ok { t with actions := t.actions.insert (p, x) a } :=
  if_pos hx

theorem setGoto_of_not_isTerminal {x : SymbolId} (hx : t.symbols.isTerminal x = false)
    (p q : StateId) : t.setGoto p x q = .ok { t with gotos := t.gotos.insert (p, x) q } :=
  if_neg (by simp [hx])

theorem lookup_of_get? {name : String} {x : SymbolId} (hx : t.symbols.get? name = some x) :
    t.lookup name = .ok x := by
  rw [lookup, hx]

theorem withProduction_of_get? {name : String} {x : SymbolId}
    (hx : t.symbols.get? name = some x) (hnonterminal : t.symbols.isTerminal x = false)
    (length : Nat) :
    t.withProduction name length =
      .ok { t with productions := t.productions.push ⟨x, length⟩ } := by
  rw [withProduction, lookup_of_get? hx]
  exact if_neg (by simp [hnonterminal])

/-- Two steps that may fail, one after the other, succeed only if both do. -/
theorem exists_of_bind_eq_ok {ε α β : Type} {x : Except ε α} {f : α → Except ε β} {b : β}
    (h : (x >>= f) = .ok b) : ∃ a, x = .ok a ∧ f a = .ok b := by
  cases x with
  | error e => cases h
  | ok a => exact ⟨a, rfl, h⟩

/-! ### The ways to enter something -/

theorem knows_of_lookup {name : String} {x : SymbolId} (h : t.lookup name = .ok x) :
    t.symbols.Knows x := by
  rw [lookup] at h
  split at h
  case h_1 found =>
    obtain rfl := Except.ok.inj h
    exact Symbols.knows_of_get? found
  case h_2 => cases h

theorem knows_of_decodeKey {text : String} {key : StateId × SymbolId}
    (h : t.decodeKey text = .ok key) : t.symbols.Knows key.2 := by
  rw [decodeKey] at h
  split at h
  case h_1 => cases h
  case h_2 =>
    split at h
    case h_1 =>
      split at h
      case h_1 found =>
        obtain rfl := Except.ok.inj h
        exact Symbols.knows_of_ofId? found
      case h_2 => cases h
    case h_2 => cases h

theorem enters_of_setAction {p : StateId} {x : SymbolId} {a : Action} (hx : t.symbols.Knows x)
    (h : t.setAction p x a = .ok t') : Enters t t' := by
  rw [setAction] at h
  split at h
  case isTrue hterminal =>
    obtain rfl := Except.ok.inj h
    exact .action p a hx hterminal
  case isFalse => cases h

theorem enters_of_setGoto {p q : StateId} {x : SymbolId} (hx : t.symbols.Knows x)
    (h : t.setGoto p x q = .ok t') : Enters t t' := by
  rw [setGoto] at h
  split at h
  case isTrue => cases h
  case isFalse hnonterminal =>
    obtain rfl := Except.ok.inj h
    exact .goto p q hx (Bool.eq_false_iff.2 hnonterminal)

theorem enters_of_withAction {p : StateId} {terminal : String} {a : Action}
    (h : t.withAction p terminal a = .ok t') : Enters t t' := by
  obtain ⟨x, hx, hset⟩ := exists_of_bind_eq_ok h
  exact enters_of_setAction (knows_of_lookup hx) hset

theorem enters_of_withGoto {p q : StateId} {nonterminal : String}
    (h : t.withGoto p nonterminal q = .ok t') : Enters t t' := by
  obtain ⟨x, hx, hset⟩ := exists_of_bind_eq_ok h
  exact enters_of_setGoto (knows_of_lookup hx) hset

theorem enters_of_withProduction {lhs : String} {length : Nat}
    (h : t.withProduction lhs length = .ok t') : Enters t t' := by
  obtain ⟨x, hx, hpush⟩ := exists_of_bind_eq_ok h
  split at hpush
  case isTrue => cases hpush
  case isFalse hnonterminal =>
    obtain rfl := Except.ok.inj hpush
    exact .production length (knows_of_lookup hx) (Bool.eq_false_iff.2 hnonterminal)

theorem enters_of_addAction {entry : String × String} (h : t.addAction entry = .ok t') :
    Enters t t' := by
  obtain ⟨key, hkey, h⟩ := exists_of_bind_eq_ok h
  obtain ⟨a, -, hset⟩ := exists_of_bind_eq_ok h
  exact enters_of_setAction (knows_of_decodeKey hkey) hset

theorem enters_of_addGoto {entry : String × StateId} (h : t.addGoto entry = .ok t') :
    Enters t t' := by
  obtain ⟨key, hkey, hset⟩ := exists_of_bind_eq_ok h
  exact enters_of_setGoto (knows_of_decodeKey hkey) hset

/-! ### Nothing else comes into a table -/

/-- What each entry of a list preserves is preserved by all of them. -/
theorem foldlM_invariant {α : Type} {P : ParseTable → Prop}
    {f : ParseTable → α → Except LoadError ParseTable}
    (step : ∀ {t t' a}, P t → f t a = .ok t' → P t') {entries : List α} (ht : P t)
    (h : entries.foldlM f t = .ok t') : P t' := by
  induction entries generalizing t with
  | nil =>
    obtain rfl := Except.ok.inj h
    exact ht
  | cons entry entries ih =>
    rw [List.foldlM_cons] at h
    obtain ⟨t₁, hfirst, hrest⟩ := exists_of_bind_eq_ok h
    exact ih (step ht hfirst) hrest

/-- **What entries preserve holds of every table that can be made.** -/
theorem Built.invariant {P : ParseTable → Prop} (initially : ∀ symbols, P (.ofSymbols symbols))
    (entered : ∀ {t t'}, P t → Enters t t' → P t') (h : t.Built) : P t := by
  induction h with
  | ofSymbols symbols => exact initially symbols
  | withAction _ _ _ _ added ih => exact entered ih (enters_of_withAction added)
  | withGoto _ _ _ _ added ih => exact entered ih (enters_of_withGoto added)
  | withProduction _ _ _ added ih => exact entered ih (enters_of_withProduction added)
  | ofEncoded loaded =>
    obtain ⟨t₁, hactions, h⟩ := exists_of_bind_eq_ok loaded
    obtain ⟨t₂, hgotos, hproductions⟩ := exists_of_bind_eq_ok h
    have h₁ : P t₁ :=
      foldlM_invariant (fun ht h => entered ht (enters_of_addAction h)) (initially _) hactions
    have h₂ : P t₂ := foldlM_invariant (fun ht h => entered ht (enters_of_addGoto h)) h₁ hgotos
    exact foldlM_invariant (fun ht h => entered ht (enters_of_withProduction h)) h₂ hproductions

/-! ## What entries are for -/

/-- Entries are for symbols of the table: actions for terminals, and gotos and productions for
nonterminals. -/
structure Closed (t : ParseTable) : Prop where
  /-- A symbol that has an action in some state is a terminal of the table. -/
  action : ∀ {p x a}, t.action? p x = some a →
    t.symbols.Knows x ∧ t.symbols.isTerminal x = true
  /-- A symbol that has a goto in some state is a nonterminal of the table. -/
  goto : ∀ {p x q}, t.goto? p x = some q →
    t.symbols.Knows x ∧ t.symbols.isTerminal x = false
  /-- The left-hand side of a production is a nonterminal of the table. -/
  production : ∀ production ∈ t.productions.toList,
    t.symbols.Knows production.lhs ∧ t.symbols.isTerminal production.lhs = false

theorem action?_ofSymbols (symbols : Symbols) (p : StateId) (x : SymbolId) :
    (ofSymbols symbols).action? p x = none := by
  simp [ofSymbols, action?]

theorem goto?_ofSymbols (symbols : Symbols) (p : StateId) (x : SymbolId) :
    (ofSymbols symbols).goto? p x = none := by
  simp [ofSymbols, goto?]

theorem closed_ofSymbols (symbols : Symbols) : (ofSymbols symbols).Closed where
  action h := by simp [action?_ofSymbols] at h
  goto h := by simp [goto?_ofSymbols] at h
  production _ h := by simp [ofSymbols] at h

/-- An entry that is found after another one has come in is either that one or an older one. -/
theorem getElem?_insert_cases {α : Type} {m : Std.HashMap (StateId × SymbolId) α}
    {key key' : StateId × SymbolId} {a b : α} (h : (m.insert key a)[key']? = some b) :
    key = key' ∨ m[key']? = some b := by
  rw [Std.HashMap.getElem?_insert] at h
  split at h
  case isTrue heq => exact .inl (eq_of_beq heq)
  case isFalse => exact .inr h

theorem Closed.enters (ht : t.Closed) (h : Enters t t') : t'.Closed := by
  cases h with
  | action p a known terminal =>
    refine ⟨?_, ht.goto, ht.production⟩
    intro p' x' a' hact
    rcases getElem?_insert_cases hact with hkey | hold
    · obtain ⟨-, rfl⟩ := Prod.mk.inj hkey
      exact ⟨known, terminal⟩
    · exact ht.action hold
  | goto p q known nonterminal =>
    refine ⟨ht.action, ?_, ht.production⟩
    intro p' x' q' hgoto
    rcases getElem?_insert_cases hgoto with hkey | hold
    · obtain ⟨-, rfl⟩ := Prod.mk.inj hkey
      exact ⟨known, nonterminal⟩
    · exact ht.goto hold
  | production length known nonterminal =>
    refine ⟨ht.action, ht.goto, ?_⟩
    intro production hmem
    rw [Array.toList_push, List.mem_append, List.mem_singleton] at hmem
    rcases hmem with hold | rfl
    · exact ht.production production hold
    · exact ⟨known, nonterminal⟩

/-- **Every table that can be made speaks of its own symbols only.** -/
theorem Built.closed (h : t.Built) : t.Closed :=
  h.invariant closed_ofSymbols Closed.enters

/-- Actions belong to terminals, and gotos to nonterminals. -/
structure Sorted (t : ParseTable) : Prop where
  /-- A symbol that has an action in some state is a terminal. -/
  action : ∀ {p x a}, t.action? p x = some a → t.symbols.isTerminal x = true
  /-- A symbol that has a goto in some state is a nonterminal. -/
  goto : ∀ {p x q}, t.goto? p x = some q → t.symbols.isTerminal x = false

/-- **Every table that can be made keeps terminals and nonterminals apart.** -/
theorem Built.sorted (h : t.Built) : t.Sorted where
  action hact := (h.closed.action hact).2
  goto hgoto := (h.closed.goto hgoto).2

/-! ## An example -/

theorem Built.insertAction (h : t.Built) (p : StateId) (name : String) (a : Action) {x : SymbolId}
    (hx : t.symbols.get? name = some x) (hterminal : t.symbols.isTerminal x = true) :
    Built { t with actions := t.actions.insert (p, x) a } := by
  refine h.withAction p name a ?_
  rw [ParseTable.withAction, lookup_of_get? hx]
  exact setAction_of_isTerminal hterminal p a

theorem Built.insertGoto (h : t.Built) (p : StateId) (name : String) (q : StateId) {x : SymbolId}
    (hx : t.symbols.get? name = some x) (hnonterminal : t.symbols.isTerminal x = false) :
    Built { t with gotos := t.gotos.insert (p, x) q } := by
  refine h.withGoto p name q ?_
  rw [ParseTable.withGoto, lookup_of_get? hx]
  exact setGoto_of_not_isTerminal hnonterminal p q

theorem Built.pushProduction (h : t.Built) (name : String) (n : Nat) {x : SymbolId}
    (hx : t.symbols.get? name = some x) (hnonterminal : t.symbols.isTerminal x = false) :
    Built { t with productions := t.productions.push ⟨x, n⟩ } :=
  h.withProduction name n (withProduction_of_get? hx hnonterminal n)

/-- The tables of the grammar with the productions `list → id` and `list → list id`. -/
def lists : ParseTable where
  symbols := Symbols.ofNames ["id"] ["list"]
  actions := ((((((({} : Std.HashMap _ _).insert (0, 1) (.shift 2)).insert (1, 0) .accept).insert
    (1, 1) (.shift 3)).insert (2, 0) (.reduce 0)).insert (2, 1) (.reduce 0)).insert
    (3, 0) (.reduce 1)).insert (3, 1) (.reduce 1)
  gotos := ({} : Std.HashMap _ _).insert (0, 2) 1
  productions := #[⟨2, 1⟩, ⟨2, 2⟩]

theorem lists_names : lists.symbols.names.toList = ["$", "id", "list"] :=
  (Symbols.toList_names_ofNames_eq_foldl ["id"] ["list"]).trans (by decide)

theorem lists_get? (name : String) :
    lists.symbols.get? name = (["$", "id", "list"].idxOf? name).map UInt16.ofNat := by
  rw [Symbols.get?_eq_map_toList, lists_names]

theorem lists_get?_end : lists.symbols.get? "$" = some 0 := (lists_get? "$").trans (by decide)

theorem lists_get?_id : lists.symbols.get? "id" = some 1 := (lists_get? "id").trans (by decide)

theorem lists_get?_list : lists.symbols.get? "list" = some 2 :=
  (lists_get? "list").trans (by decide)

theorem lists_isTerminal (x : SymbolId) : lists.symbols.isTerminal x = decide (x < 2) := by
  have hfirst : lists.symbols.firstNonterminal = 2 :=
    (Symbols.firstNonterminal_ofNames_eq_length ["id"] ["list"]).trans (by decide)
  rw [Symbols.isTerminal, hfirst]

theorem lists_action? (p : StateId) (x : SymbolId) : lists.action? p x =
    if p = 0 ∧ x = 1 then some (.shift 2)
    else if p = 1 ∧ x = 0 then some .accept
    else if p = 1 ∧ x = 1 then some (.shift 3)
    else if p = 2 ∧ (x = 0 ∨ x = 1) then some (.reduce 0)
    else if p = 3 ∧ (x = 0 ∨ x = 1) then some (.reduce 1)
    else none := by
  simp only [lists, action?, Std.HashMap.getElem?_insert, beq_iff_eq, Prod.mk.injEq]
  grind

theorem lists_goto? (p : StateId) (x : SymbolId) :
    lists.goto? p x = if p = 0 ∧ x = 2 then some 1 else none := by
  simp only [lists, goto?, Std.HashMap.getElem?_insert, beq_iff_eq, Prod.mk.injEq]
  grind

theorem lists_production? (p : ProductionId) : lists.production? p =
    if p = 0 then some ⟨2, 1⟩ else if p = 1 then some ⟨2, 2⟩ else none := by
  split_ifs with h₀ h₁
  · subst h₀; rfl
  · subst h₁; rfl
  · rw [← UInt32.toNat_inj, UInt32.toNat_zero] at h₀
    rw [← UInt32.toNat_inj, UInt32.toNat_one] at h₁
    rw [production?, Array.getElem?_eq_none]
    show 2 ≤ p.toNat
    omega

theorem lists_built : lists.Built := by
  have h : Built (ofSymbols lists.symbols) := .ofSymbols _
  have h := h.insertAction 0 "id" (.shift 2) lists_get?_id (lists_isTerminal 1)
  have h := h.insertAction 1 "$" .accept lists_get?_end (lists_isTerminal 0)
  have h := h.insertAction 1 "id" (.shift 3) lists_get?_id (lists_isTerminal 1)
  have h := h.insertAction 2 "$" (.reduce 0) lists_get?_end (lists_isTerminal 0)
  have h := h.insertAction 2 "id" (.reduce 0) lists_get?_id (lists_isTerminal 1)
  have h := h.insertAction 3 "$" (.reduce 1) lists_get?_end (lists_isTerminal 0)
  have h := h.insertAction 3 "id" (.reduce 1) lists_get?_id (lists_isTerminal 1)
  have h := h.insertGoto 0 "list" 1 lists_get?_list (lists_isTerminal 2)
  have h := h.pushProduction "list" 1 lists_get?_list (lists_isTerminal 2)
  exact h.pushProduction "list" 2 lists_get?_list (lists_isTerminal 2)

end ScriptReader.ParseTable
