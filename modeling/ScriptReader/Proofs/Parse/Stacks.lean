import ScriptReader.Proofs.Parse.Turns

/-!
# The four stacks as one

A configuration keeps symbols, states, values and locations on four stacks that are changed
separately.  As long as each operation treats all four alike they are the columns of one stack of
*frames*.  `Configuration.Holds` is that view, and this module says what each operation does to the
frames, so that what is proved about runs need not speak of the columns.

## Main Definitions

* `Frame` — a symbol that has been read, with its state, value and location
* `Configuration.Holds` — the stacks are the columns of some frames
* `Configuration.Aligned` — the stacks are of one height

## Main Statements

* `Configuration.Holds.aligned` — stacks that hold frames are of one height
* `Configuration.Holds.completed`, `Configuration.Holds.stranded` — what a reduction does to frames
-/

namespace ScriptReader

/-- A symbol that has been read. -/
structure Frame (ν : Type) where
  /-- The state reached by reading it. -/
  state : StateId
  /-- The symbol. -/
  symbol : SymbolId
  /-- Its value. -/
  value : ν
  /-- Where it stands. -/
  location : Location

namespace Configuration

variable {κ ν : Type} {g : Grammar κ ν} {c c' : Configuration κ ν} {fs : List (Frame ν)}

/-- The state that frames stand for, the last one read being the first of the list. -/
def stateOf (fs : List (Frame ν)) : StateId := (fs.head?.map Frame.state).getD initialState

@[simp] theorem stateOf_nil : stateOf ([] : List (Frame ν)) = initialState := rfl

@[simp] theorem stateOf_cons (f : Frame ν) (fs : List (Frame ν)) :
    stateOf (f :: fs) = f.state := rfl

/-- The stacks of `c` are the columns of the frames `fs`, the last one read being the first. -/
structure Holds (c : Configuration κ ν) (fs : List (Frame ν)) : Prop where
  /-- The first column. -/
  states : c.stateStack = fs.map Frame.state
  /-- The second column. -/
  symbols : c.symbolStack = fs.map Frame.symbol
  /-- The third column. -/
  values : c.valueStack = fs.map Frame.value
  /-- The last column. -/
  locations : c.locationStack = fs.map Frame.location

/-- The four stacks are of one height. -/
structure Aligned (c : Configuration κ ν) : Prop where
  /-- There are as many symbols as states. -/
  symbols : c.symbols.length = c.states.length
  /-- There are as many values as states. -/
  values : c.values.length = c.states.length
  /-- There are as many locations as states. -/
  locations : c.locations.length = c.states.length

theorem Holds.aligned (h : c.Holds fs) : c.Aligned where
  symbols := by simp [Configuration.symbols, Configuration.states, h.symbols, h.states]
  values := by simp [Configuration.values, Configuration.states, h.values, h.states]
  locations := by simp [Configuration.locations, Configuration.states, h.locations, h.states]

/-! ## What the operations do to frames -/

theorem holds_start (context : κ) : (start context : Configuration κ ν).Holds [] :=
  ⟨rfl, rfl, rfl, rfl⟩

theorem Holds.state_eq (h : c.Holds fs) : c.state = stateOf fs := by
  rw [state, h.states, List.head?_map]
  rfl

theorem Holds.enter (h : c.Holds fs) (q : StateId) (x : SymbolId) (v : ν) (l : Location) :
    (c.enter q x v l).Holds (⟨q, x, v, l⟩ :: fs) where
  states := congrArg (q :: ·) h.states
  symbols := congrArg (x :: ·) h.symbols
  values := congrArg (v :: ·) h.values
  locations := congrArg (l :: ·) h.locations

theorem Holds.leave (h : c.Holds fs) (n : Nat) : (c.leave n).Holds (fs.drop n) where
  states := by simp [Configuration.leave, h.states, List.map_drop]
  symbols := by simp [Configuration.leave, h.symbols, List.map_drop]
  values := by simp [Configuration.leave, h.values, List.map_drop]
  locations := by simp [Configuration.leave, h.locations, List.map_drop]

/-- Neither the context nor the last position is on the stacks. -/
theorem Holds.of_eq_stacks (h : c.Holds fs) (context : κ) (last : Position) :
    ({ c with context := context, lastPosition := last } : Configuration κ ν).Holds fs :=
  ⟨h.states, h.symbols, h.values, h.locations⟩

theorem Holds.shift (h : c.Holds fs) (q : StateId) (x : SymbolId) (t : Token) (l : Location) :
    (c.shift g q x t l).Holds (⟨q, x, g.semantics.ofToken t, l⟩ :: fs) :=
  (h.enter q x (g.semantics.ofToken t) l).of_eq_stacks c.context l.stop

/-- The location of the symbols of a production that stand last among the frames. -/
def placeOf (c : Configuration κ ν) (fs : List (Frame ν)) (production : Production) : Location :=
  c.extent ((fs.take production.length).map Frame.location).reverse

/-- The value of a production whose symbols stand last among the frames, with the context
afterwards. -/
def made (g : Grammar κ ν) (c : Configuration κ ν) (p : ProductionId) (fs : List (Frame ν))
    (production : Production) : κ × ν :=
  g.semantics.reduce c.context p ((fs.take production.length).map Frame.value).reverse
    (c.placeOf fs production)

/-- A reduction in terms of frames: the symbols of the production are at hand, and what becomes of
it depends on where its left-hand side leads from the frames below. -/
theorem Holds.reduce_eq (h : c.Holds fs) {p : ProductionId} {production : Production}
    (hp : g.table.production? p = some production) (hlen : production.length ≤ fs.length) :
    c.reduce g p =
      (match g.table.goto? (stateOf (fs.drop production.length)) production.lhs with
      | none =>
        .stranded ⟨p, production.lhs, production.length, c.placeOf fs production⟩
          { c.leave production.length with context := (c.made g p fs production).1 }
      | some target =>
        .completed ⟨p, production.lhs, production.length, c.placeOf fs production⟩
          (({ c.leave production.length with context := (c.made g p fs production).1 } :
              Configuration κ ν).enter target production.lhs (c.made g p fs production).2
            (c.placeOf fs production))) := by
  have hvalues : c.valueStack.take production.length =
      (fs.take production.length).map Frame.value := by rw [h.values, List.map_take]
  have hplaces : c.locationStack.take production.length =
      (fs.take production.length).map Frame.location := by rw [h.locations, List.map_take]
  have hbelow : ∀ context : κ,
      ({ c.leave production.length with context := context } : Configuration κ ν).state =
        stateOf (fs.drop production.length) := fun context =>
    ((h.leave production.length).of_eq_stacks context c.lastPosition).state_eq
  have hsize : ¬ ((fs.take production.length).map Frame.value).reverse.length <
      production.length := by
    rw [List.length_reverse, List.length_map, List.length_take, Nat.min_eq_left hlen]
    exact Nat.lt_irrefl _
  simp only [reduce, hp, hvalues, hplaces, hbelow, if_neg hsize]
  rfl

/-- A reduction that is begun finds its production and the symbols of it. -/
theorem Holds.reduce_begun (h : c.Holds fs) {p : ProductionId}
    (hbegun : ∀ fault, c.reduce g p ≠ .refused fault) :
    ∃ production, g.table.production? p = some production ∧ production.length ≤ fs.length := by
  cases hp : g.table.production? p with
  | none => exact absurd (by simp [reduce, hp]) (hbegun (.unknownProduction p))
  | some production =>
    refine ⟨production, rfl, Nat.not_lt.1 fun hlen => hbegun (.stackUnderflow p) ?_⟩
    have hshort : (c.valueStack.take production.length).reverse.length < production.length := by
      rw [List.length_reverse, List.length_take, h.values, List.length_map]
      omega
    simp only [reduce, hp, if_pos hshort]

/-- **What a completed reduction does**: the symbols of its production are replaced by its left-hand
side, which leads on from the frames below. -/
theorem Holds.completed (h : c.Holds fs) {p : ProductionId} {r : Reduction}
    (hr : c.reduce g p = .completed r c') :
    ∃ production target, g.table.production? p = some production ∧
      production.length ≤ fs.length ∧
      g.table.goto? (stateOf (fs.drop production.length)) production.lhs = some target ∧
      r = ⟨p, production.lhs, production.length, c.placeOf fs production⟩ ∧
      c'.context = (c.made g p fs production).1 ∧ c'.lastPosition = c.lastPosition ∧
      c'.Holds (⟨target, production.lhs, (c.made g p fs production).2, c.placeOf fs production⟩ ::
        fs.drop production.length) := by
  obtain ⟨production, hp, hlen⟩ := h.reduce_begun (g := g) (p := p) (by simp [hr])
  rw [h.reduce_eq hp hlen] at hr
  split at hr
  · cases hr
  · rename_i target hgoto
    cases hr
    exact ⟨production, target, hp, hlen, hgoto, rfl, rfl, rfl,
      ((h.leave production.length).of_eq_stacks _ c.lastPosition).enter _ _ _ _⟩

/-- What a reduction does whose result leads nowhere: the symbols of its production are gone. -/
theorem Holds.stranded (h : c.Holds fs) {p : ProductionId} {r : Reduction}
    (hr : c.reduce g p = .stranded r c') :
    ∃ production, g.table.production? p = some production ∧ production.length ≤ fs.length ∧
      g.table.goto? (stateOf (fs.drop production.length)) production.lhs = none ∧
      r = ⟨p, production.lhs, production.length, c.placeOf fs production⟩ ∧
      c'.context = (c.made g p fs production).1 ∧ c'.lastPosition = c.lastPosition ∧
      c'.Holds (fs.drop production.length) := by
  obtain ⟨production, hp, hlen⟩ := h.reduce_begun (g := g) (p := p) (by simp [hr])
  rw [h.reduce_eq hp hlen] at hr
  split at hr
  · rename_i hgoto
    cases hr
    exact ⟨production, hp, hlen, hgoto, rfl, rfl, rfl,
      (h.leave production.length).of_eq_stacks _ c.lastPosition⟩
  · cases hr

end Configuration

end ScriptReader
