import Mathlib.Data.List.Forall2
import ScriptReader.Proofs.Parse.Forest

/-!
# Values do not steer the parser

What is made of the things that are recognised has no influence on what is recognised.  If two
semantics keep up a correspondence of their contexts and values, parsers with the same tables take
the same turns with them.  Two correspondences are always kept up: that of everything with
everything, and that of a context with the same context and a record of what it has been told.

## Main Definitions

* `Semantics.Corresponds`, `Configuration.Corresponds`, `Turn.Corresponds` — a correspondence of
  contexts and values is kept up
* `Semantics.noted` — the semantics that keeps a record of what contexts are told
* `Configuration.turns` — the turns that tokens and the end of input after them take
* `Turn.outline`, `Turn.told` — what can be seen of a turn, and what contexts have been told by its
  end, without looking at values

## Main Statements

* `Configuration.corresponds_turns` — corresponding semantics take corresponding turns
* `Configuration.outlines_turns` — any two semantics take turns with the same outlines, and are told
  of the same reductions
-/

namespace ScriptReader

variable {κ κ' ν ν' : Type} {C : κ → κ' → Prop} {V : ν → ν' → Prop}
variable {m : Semantics κ ν} {m' : Semantics κ' ν'} {t : ParseTable}

/-- Functions that lead from related things to related ones do so where there may be nothing. -/
theorem rel_map {α β γ δ : Type} {R : α → β → Prop} {S : γ → δ → Prop} {f : α → γ} {g : β → δ}
    {x : Option α} {y : Option β} (h : Option.Rel R x y) (hfg : ∀ a b, R a b → S (f a) (g b)) :
    Option.Rel S (x.map f) (y.map g) := by
  cases h with
  | none => exact .none
  | some hab => exact .some (hfg _ _ hab)

/-! ## Correspondences -/

/-- Two semantics keep up a correspondence `C` of contexts and `V` of values. -/
structure Semantics.Corresponds (C : κ → κ' → Prop) (V : ν → ν' → Prop) (m : Semantics κ ν)
    (m' : Semantics κ' ν') : Prop where
  /-- The values of a token correspond. -/
  ofToken : ∀ token, V (m.ofToken token) (m'.ofToken token)
  /-- Reducing keeps up both correspondences. -/
  reduce : ∀ {c c' values values'} p l, C c c' → List.Forall₂ V values values' →
    C (m.reduce c p values l).1 (m'.reduce c' p values' l).1 ∧
      V (m.reduce c p values l).2 (m'.reduce c' p values' l).2

/-- Two configurations differ at most in their contexts and values, which correspond. -/
structure Configuration.Corresponds (C : κ → κ' → Prop) (V : ν → ν' → Prop)
    (c : Configuration κ ν) (c' : Configuration κ' ν') : Prop where
  /-- The contexts correspond. -/
  context : C c.context c'.context
  /-- The states are the same. -/
  stateStack : c.stateStack = c'.stateStack
  /-- The symbols are the same. -/
  symbolStack : c.symbolStack = c'.symbolStack
  /-- The values correspond. -/
  valueStack : List.Forall₂ V c.valueStack c'.valueStack
  /-- The symbols stand in the same places. -/
  locationStack : c.locationStack = c'.locationStack
  /-- The last token ends in the same place. -/
  lastPosition : c.lastPosition = c'.lastPosition

/-- The same becomes of two reductions. -/
inductive Reduced.Corresponds (C : κ → κ' → Prop) (V : ν → ν' → Prop) :
    Reduced κ ν → Reduced κ' ν' → Prop
  | refused (fault : Inconsistency) : Corresponds C V (.refused fault) (.refused fault)
  | stranded (r : Reduction) {c : Configuration κ ν} {c' : Configuration κ' ν'}
      (after : c.Corresponds C V c') : Corresponds C V (.stranded r c) (.stranded r c')
  | completed (r : Reduction) {c : Configuration κ ν} {c' : Configuration κ' ν'}
      (after : c.Corresponds C V c') : Corresponds C V (.completed r c) (.completed r c')

/-- The same becomes of the reductions that a terminal calls for. -/
structure Settled.Corresponds (C : κ → κ' → Prop) (V : ν → ν' → Prop) (s : Settled κ ν)
    (s' : Settled κ' ν') : Prop where
  /-- The same reductions are begun. -/
  reductions : s.reductions = s'.reductions
  /-- The configurations afterwards correspond. -/
  after : s.after.Corresponds C V s'.after
  /-- The tables say the same. -/
  verdict : s.verdict = s'.verdict

/-- One more reduction in front changes nothing about what follows. -/
theorem Settled.Corresponds.cons {s : Settled κ ν} {s' : Settled κ' ν'}
    (h : s.Corresponds C V s') (r : Reduction) :
    ({ s with reductions := r :: s.reductions } : Settled κ ν).Corresponds C V
      { s' with reductions := r :: s'.reductions } :=
  { h with reductions := congrArg (List.cons r) h.reductions }

/-- The same becomes of a token or of the end of input. -/
structure Turn.Corresponds (C : κ → κ' → Prop) (V : ν → ν' → Prop) (turn : Turn κ ν)
    (turn' : Turn κ' ν') : Prop where
  /-- The same reductions are begun. -/
  reductions : turn.reductions = turn'.reductions
  /-- The configurations afterwards correspond. -/
  after : turn.after.Corresponds C V turn'.after
  /-- Both are accepted, or both fail in the same way. -/
  result : turn.result = turn'.result

/-! ## Corresponding semantics take corresponding turns -/

namespace Configuration

variable {c : Configuration κ ν} {c' : Configuration κ' ν'}

namespace Corresponds

theorem state (h : c.Corresponds C V c') : c.state = c'.state := by
  rw [Configuration.state, h.stateStack, Configuration.state]

theorem expected (h : c.Corresponds C V c') :
    c.expected ⟨t, m⟩ = c'.expected ⟨t, m'⟩ := by
  rw [Configuration.expected, h.state, Configuration.expected]

theorem extent (h : c.Corresponds C V c') (places : List Location) :
    c.extent places = c'.extent places := by
  rw [Configuration.extent, h.lastPosition, Configuration.extent]

theorem siteOf (h : c.Corresponds C V c') (token : Token) :
    c.siteOf token = c'.siteOf token := by
  rw [Configuration.siteOf, h.lastPosition, Configuration.siteOf]

theorem withContext (h : c.Corresponds C V c') {k : κ} {k' : κ'} (hk : C k k') :
    ({ c with context := k } : Configuration κ ν).Corresponds C V { c' with context := k' } :=
  { h with context := hk }

theorem leave (h : c.Corresponds C V c') (count : Nat) :
    (c.leave count).Corresponds C V (c'.leave count) where
  context := h.context
  stateStack := congrArg (List.drop count) h.stateStack
  symbolStack := congrArg (List.drop count) h.symbolStack
  valueStack := List.forall₂_drop count h.valueStack
  locationStack := congrArg (List.drop count) h.locationStack
  lastPosition := h.lastPosition

theorem enter (h : c.Corresponds C V c') {v : ν} {v' : ν'} (hv : V v v') (q : StateId)
    (x : SymbolId) (l : Location) : (c.enter q x v l).Corresponds C V (c'.enter q x v' l) where
  context := h.context
  stateStack := congrArg (List.cons q) h.stateStack
  symbolStack := congrArg (List.cons x) h.symbolStack
  valueStack := .cons hv h.valueStack
  locationStack := congrArg (List.cons l) h.locationStack
  lastPosition := h.lastPosition

theorem shift (hm : m.Corresponds C V m') (h : c.Corresponds C V c') (q : StateId) (x : SymbolId)
    (token : Token) (l : Location) :
    (c.shift ⟨t, m⟩ q x token l).Corresponds C V (c'.shift ⟨t, m'⟩ q x token l) :=
  { h.enter (hm.ofToken token) q x l with lastPosition := rfl }

/-- Reducing asks values only how many there are. -/
theorem reduce (hm : m.Corresponds C V m') (h : c.Corresponds C V c') (p : ProductionId) :
    (c.reduce ⟨t, m⟩ p).Corresponds C V (c'.reduce ⟨t, m'⟩ p) := by
  simp only [Configuration.reduce]
  cases t.production? p with
  | none => exact .refused _
  | some production =>
    have hvalues : List.Forall₂ V (c.valueStack.take production.length).reverse
        (c'.valueStack.take production.length).reverse :=
      List.forall₂_reverse_iff.2 (List.forall₂_take production.length h.valueStack)
    have hmade := hm.reduce p (c'.extent (c'.locationStack.take production.length).reverse)
      h.context hvalues
    have hbelow := (h.leave production.length).withContext hmade.1
    simp only [h.locationStack, h.extent, hvalues.length_eq]
    split
    case isTrue => exact .refused _
    case isFalse =>
      rw [hbelow.state]
      split
      case h_1 => exact .stranded _ hbelow
      case h_2 target _ => exact .completed _ (hbelow.enter hmade.2 target production.lhs _)

theorem settle (hm : m.Corresponds C V m') (h : c.Corresponds C V c') (x : SymbolId)
    (site : Location) (patience : Nat) :
    Option.Rel (Settled.Corresponds C V) (c.settle ⟨t, m⟩ x site patience)
      (c'.settle ⟨t, m'⟩ x site patience) := by
  induction patience generalizing c c' with
  | zero => exact .none
  | succ patience ih =>
    simp only [Configuration.settle, h.state]
    split
    case h_1 p _ =>
      have hreduce := h.reduce (t := t) hm p
      generalize c.reduce ⟨t, m⟩ p = reduced, c'.reduce ⟨t, m'⟩ p = reduced' at hreduce ⊢
      cases hreduce with
      | refused fault => exact .some ⟨rfl, h, rfl⟩
      | stranded r after => exact .some ⟨rfl, after, by rw [after.state]⟩
      | completed r after => exact rel_map (ih after) fun _ _ hs => hs.cons r
    case h_2 => exact .some ⟨rfl, h, rfl⟩

theorem push (hm : m.Corresponds C V m') (h : c.Corresponds C V c') (patience : Nat)
    (token : Token) :
    Option.Rel (Turn.Corresponds C V) (c.push ⟨t, m⟩ patience token)
      (c'.push ⟨t, m'⟩ patience token) := by
  simp only [Configuration.push, h.siteOf]
  have hterminal : (⟨t, m⟩ : Grammar κ ν).terminal? token.kind =
      (⟨t, m'⟩ : Grammar κ' ν').terminal? token.kind := rfl
  rw [hterminal]
  split
  case h_1 => exact .some ⟨rfl, h, rfl⟩
  case h_2 x _ =>
    refine rel_map (h.settle hm x _ patience) fun s s' hs => ?_
    rw [hs.verdict]
    split
    case h_1 => exact ⟨hs.reductions, hs.after, rfl⟩
    case h_2 q _ => exact ⟨hs.reductions, hs.after.shift hm q x token _, rfl⟩
    case h_3 => exact ⟨hs.reductions, hs.after, by rw [hs.after.expected]⟩

theorem finish (hm : m.Corresponds C V m') (h : c.Corresponds C V c') (patience : Nat) :
    Option.Rel (Turn.Corresponds C V) (c.finish ⟨t, m⟩ patience) (c'.finish ⟨t, m'⟩ patience) := by
  simp only [Configuration.finish, h.lastPosition]
  refine rel_map (h.settle hm _ _ patience) fun s s' hs => ?_
  rw [hs.verdict]
  split
  case h_1 => exact ⟨hs.reductions, hs.after, rfl⟩
  case h_2 => exact ⟨hs.reductions, hs.after, rfl⟩
  case h_3 => exact ⟨hs.reductions, hs.after, by rw [hs.after.expected]⟩

end Corresponds

/-! ## Runs -/

/-- The turns that tokens take one after another, whether they are shifted or fail, and the turn of
the end of input after them.  There are no more once patience has come to an end. -/
def turns (g : Grammar κ ν) (patience : Nat) (c : Configuration κ ν) :
    List Token → List (Option (Turn κ ν))
  | [] => [c.finish g patience]
  | token :: tokens =>
    match c.push g patience token with
    | none => [none]
    | some turn => some turn :: turns g patience turn.after tokens

/-- **Corresponding semantics take corresponding turns.** -/
theorem corresponds_turns (hm : m.Corresponds C V m') (h : c.Corresponds C V c') (patience : Nat)
    (tokens : List Token) :
    List.Forall₂ (Option.Rel (Turn.Corresponds C V)) (c.turns ⟨t, m⟩ patience tokens)
      (c'.turns ⟨t, m'⟩ patience tokens) := by
  induction tokens generalizing c c' with
  | nil => exact .cons (h.finish hm patience) .nil
  | cons token tokens ih =>
    have hpush := h.push (t := t) hm patience token
    simp only [turns]
    generalize c.push ⟨t, m⟩ patience token = pushed,
      c'.push ⟨t, m'⟩ patience token = pushed' at hpush ⊢
    cases hpush with
    | none => exact .cons .none .nil
    | some hturn => exact .cons (.some hturn) (ih hturn.after)

end Configuration

/-- What is read off corresponding turns alike is the same for whole runs. -/
theorem Turn.map_eq_map {α : Type} {f : Turn κ ν → α} {f' : Turn κ' ν' → α}
    (hf : ∀ {turn turn'}, turn.Corresponds C V turn' → f turn = f' turn')
    {turns : List (Option (Turn κ ν))} {turns' : List (Option (Turn κ' ν'))}
    (h : List.Forall₂ (Option.Rel (Turn.Corresponds C V)) turns turns') :
    turns.map (Option.map f) = turns'.map (Option.map f') := by
  induction h with
  | nil => rfl
  | cons hturn _ ih =>
    rw [List.map_cons, List.map_cons, ih]
    cases hturn with
    | none => rfl
    | some hturn => rw [Option.map_some, Option.map_some, hf hturn]

/-! ## Records -/

/-- The semantics that does the same and keeps a record of what contexts are told. -/
def Semantics.noted (m : Semantics κ ν) : Semantics (κ × List (Notice ν)) ν where
  ofToken := m.ofToken
  blank := m.blank
  reducer? p := (m.reducer? p).map fun reducer c values l =>
    let made := reducer c.1 values l
    ((made.1, c.2), made.2)
  started c p values l := (m.started c.1 p values l, c.2 ++ [.started p values l])
  ended c p value l := (m.ended c.1 p value l, c.2 ++ [.ended p value l])

theorem Semantics.noted_reports (m : Semantics κ ν) : m.noted.Reports Prod.snd where
  started _ _ _ _ := rfl
  ended _ _ _ _ := rfl
  reducer h _ _ _ := by
    obtain ⟨_, _, rfl⟩ := Option.map_eq_some_iff.1 h
    rfl

/-- Keeping a record changes nothing else. -/
theorem Semantics.noted_corresponds (m : Semantics κ ν) :
    m.noted.Corresponds (fun c c' => c.1 = c') Eq m where
  ofToken _ := rfl
  reduce := by
    rintro ⟨k, record⟩ _ values values' p l rfl hvalues
    obtain rfl : values = values' := by rwa [List.forall₂_eq_eq_eq] at hvalues
    simp only [Semantics.reduce, noted]
    cases m.reducer? p <;> exact ⟨rfl, rfl⟩

/-- A notice without its values, of which only the number is left. -/
def Notice.outline : Notice ν → Notice Unit
  | .started p values l => .started p (values.map fun _ => ()) l
  | .ended p _ l => .ended p () l

/-- Any two semantics whose contexts keep a log are told of the same reductions. -/
theorem Semantics.Reports.corresponds {log : κ → List (Notice ν)} {log' : κ' → List (Notice ν')}
    (hlog : m.Reports log) (hlog' : m'.Reports log') :
    m.Corresponds (fun c c' => (log c).map Notice.outline = (log' c').map Notice.outline)
      (fun _ _ => True) m' where
  ofToken _ := trivial
  reduce := by
    intro c c' values values' p l hc hvalues
    refine ⟨?_, trivial⟩
    rw [hlog.log_reduce, hlog'.log_reduce, List.map_append, List.map_append, hc]
    simp only [List.map_cons, List.map_nil, Notice.outline, List.map_const', hvalues.length_eq]

/-- A turn without the record that is kept along with the context. -/
def Turn.unnoted (turn : Turn (κ × List (Notice ν)) ν) : Turn κ ν where
  reductions := turn.reductions
  after :=
    { context := turn.after.context.1
      stateStack := turn.after.stateStack
      symbolStack := turn.after.symbolStack
      valueStack := turn.after.valueStack
      locationStack := turn.after.locationStack
      lastPosition := turn.after.lastPosition }
  result := turn.result

theorem Turn.Corresponds.unnoted_eq {turn : Turn (κ × List (Notice ν)) ν} {turn' : Turn κ ν}
    (h : turn.Corresponds (fun c c' => c.1 = c') Eq turn') : turn.unnoted = turn' := by
  obtain ⟨reductions, ⟨context, states, symbols, values, locations, position⟩, result⟩ := turn
  obtain ⟨reductions', ⟨context', states', symbols', values', locations', position'⟩, result'⟩ :=
    turn'
  obtain ⟨rfl, ⟨rfl, rfl, rfl, hvalues, rfl, rfl⟩, rfl⟩ := h
  obtain rfl : values = values' := by rwa [List.forall₂_eq_eq_eq] at hvalues
  rfl

/-! ## What can be seen without looking at values -/

/-- What can be seen of a turn without looking at values. -/
structure Outline where
  /-- The reductions begun, in order. -/
  reductions : List Reduction
  /-- Whether the token or the end of input was accepted. -/
  result : Except ParseError Unit
  /-- The states that have been reached. -/
  states : List StateId
  /-- The symbols that have been read. -/
  symbols : List SymbolId
  /-- Where they stand. -/
  locations : List Location
  /-- Where the last token that was shifted ends. -/
  lastPosition : Position

/-- What can be seen of a turn without looking at values. -/
def Turn.outline (turn : Turn κ ν) : Outline where
  reductions := turn.reductions
  result := turn.result
  states := turn.after.states
  symbols := turn.after.symbols
  locations := turn.after.locations
  lastPosition := turn.after.lastPosition

theorem Turn.Corresponds.outline_eq {turn : Turn κ ν} {turn' : Turn κ' ν'}
    (h : turn.Corresponds C V turn') : turn.outline = turn'.outline := by
  simp only [outline, Configuration.states, Configuration.symbols, Configuration.locations,
    h.reductions, h.result, h.after.stateStack, h.after.symbolStack, h.after.locationStack,
    h.after.lastPosition]

/-- What the context of a turn has been told since the record was begun, without values. -/
def Turn.told (turn : Turn (κ × List (Notice ν)) ν) : List (Notice Unit) :=
  turn.after.context.2.map Notice.outline

theorem Turn.Corresponds.told_eq {turn : Turn (κ × List (Notice ν)) ν}
    {turn' : Turn (κ' × List (Notice ν')) ν'}
    (h : turn.Corresponds (fun c c' => c.2.map Notice.outline = c'.2.map Notice.outline) V turn') :
    turn.told = turn'.told :=
  h.after.context

namespace Configuration

/-- The turns of a parse from its start, with a record of what the context is told. -/
def notedTurns (g : Grammar κ ν) (patience : Nat) (context : κ) (tokens : List Token) :
    List (Option (Turn (κ × List (Notice ν)) ν)) :=
  (start (context, [])).turns ⟨g.table, g.semantics.noted⟩ patience tokens

theorem corresponds_start {k : κ} {k' : κ'} (hk : C k k') :
    (start k : Configuration κ ν).Corresponds C V (start k') :=
  ⟨hk, rfl, rfl, .nil, rfl, rfl⟩

/-- The record is that of a parse which is otherwise the same. -/
theorem map_unnoted_notedTurns (g : Grammar κ ν) (patience : Nat) (context : κ)
    (tokens : List Token) :
    (notedTurns g patience context tokens).map (Option.map Turn.unnoted) =
      (start context).turns g patience tokens :=
  calc (notedTurns g patience context tokens).map (Option.map Turn.unnoted)
      = ((start context).turns g patience tokens).map (Option.map id) :=
        Turn.map_eq_map Turn.Corresponds.unnoted_eq
          (corresponds_turns g.semantics.noted_corresponds (corresponds_start rfl) patience tokens)
    _ = (start context).turns g patience tokens := by rw [Option.map_id, List.map_id]

/-- **Values do not steer the parser.**  With any two semantics, whatever the types of their
contexts and values, tokens and the end of input after them take turns with the same outlines, and
the contexts are told of the same reductions. -/
theorem outlines_turns (t : ParseTable) (m : Semantics κ ν) (m' : Semantics κ' ν') (context : κ)
    (context' : κ') (patience : Nat) (tokens : List Token) :
    ((start context).turns ⟨t, m⟩ patience tokens).map (Option.map Turn.outline) =
        ((start context').turns ⟨t, m'⟩ patience tokens).map (Option.map Turn.outline) ∧
      (notedTurns ⟨t, m⟩ patience context tokens).map (Option.map Turn.told) =
        (notedTurns ⟨t, m'⟩ patience context' tokens).map (Option.map Turn.told) ∧
      (notedTurns ⟨t, m⟩ patience context tokens).map (Option.map Turn.unnoted) =
        (start context).turns ⟨t, m⟩ patience tokens ∧
      (notedTurns ⟨t, m'⟩ patience context' tokens).map (Option.map Turn.unnoted) =
        (start context').turns ⟨t, m'⟩ patience tokens := by
  have hany : m.Corresponds (fun _ _ => True) (fun _ _ => True) m' :=
    ⟨fun _ => trivial, fun _ _ _ _ => ⟨trivial, trivial⟩⟩
  exact ⟨Turn.map_eq_map Turn.Corresponds.outline_eq
      (corresponds_turns hany (corresponds_start trivial) patience tokens),
    Turn.map_eq_map Turn.Corresponds.told_eq
      (corresponds_turns (m.noted_reports.corresponds m'.noted_reports) (corresponds_start rfl)
        patience tokens),
    map_unnoted_notedTurns _ patience context tokens,
    map_unnoted_notedTurns _ patience context' tokens⟩

end Configuration

end ScriptReader
