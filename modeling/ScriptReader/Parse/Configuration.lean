import ScriptReader.Parse.Error
import ScriptReader.Parse.Grammar

/-!
# Configurations of the parser

A configuration is what the parser has made of the tokens so far.  The tables of a grammar lead from
one configuration to the next, token by token.

## Main Definitions

* `Configuration` — a parse in progress
* `Configuration.enter` and `Configuration.leave` — put a symbol on the stacks, and take symbols off
* `Configuration.reduce` — one reduction
* `Configuration.settle` — the reductions that a terminal calls for
* `Configuration.push` and `Configuration.finish` — a token, and the end of input
* `Grammar.parse` — a whole parse

## Design Notes

What has been read is kept on four stacks: the symbols, the states that they lead to, their values
and their locations.  The state of empty stacks is zero.  Each stack is changed on its own, and that
they stay of one height is nowhere checked; it follows from the way they are changed.

Tables come from outside and may make a parse go on reducing for ever.  Whoever parses therefore
says how many times the tables may be consulted for one token, the `patience`, and gets no answer if
that is not enough.  More patience never changes an answer.

A token that fails leaves the configuration as far as it got, and parsing may go on from there:
reductions that were completed stay, and the token is not read.
-/

namespace ScriptReader

/-- A parse in progress. -/
structure Configuration (κ ν : Type) where
  /-- The context of the semantics. -/
  context : κ
  /-- The states reached by reading symbols, the last one first. -/
  stateStack : List StateId := []
  /-- The symbols that have been read, the last one first. -/
  symbolStack : List SymbolId := []
  /-- The values of those symbols. -/
  valueStack : List ν := []
  /-- Where those symbols stand. -/
  locationStack : List Location := []
  /-- Where the last token that was shifted ends. -/
  lastPosition : Position := default
  deriving Repr

/-- A reduction that was begun. -/
structure Reduction where
  /-- The production. -/
  production : ProductionId
  /-- Its left-hand side. -/
  lhs : SymbolId
  /-- The number of symbols that were taken off the stack. -/
  length : Nat
  /-- Where those symbols stand. -/
  location : Location
  deriving DecidableEq, Repr

/-- What becomes of a reduction. -/
inductive Reduced (κ ν : Type) where
  /-- It cannot be begun, and nothing has changed. -/
  | refused (fault : Inconsistency)
  /-- It was begun, but the result leads nowhere and is lost. -/
  | stranded (reduction : Reduction) (after : Configuration κ ν)
  /-- It was completed. -/
  | completed (reduction : Reduction) (after : Configuration κ ν)

/-- What becomes of the reductions that a terminal calls for. -/
structure Settled (κ ν : Type) where
  /-- The reductions begun, in order. -/
  reductions : List Reduction
  /-- The configuration afterwards. -/
  after : Configuration κ ν
  /-- What the tables say once no more reductions are called for; `none` if nothing. -/
  verdict : Except ParseError (Option Action)

/-- What becomes of a token or of the end of input. -/
structure Turn (κ ν : Type) where
  /-- The reductions begun, in order. -/
  reductions : List Reduction
  /-- The configuration afterwards. -/
  after : Configuration κ ν
  /-- Whether the token or the end of input was accepted. -/
  result : Except ParseError Unit

namespace Configuration

variable {κ ν : Type}

/-- The state in which a parse begins. -/
def initialState : StateId := 0

/-- A configuration before anything has been read. -/
def start (context : κ) : Configuration κ ν := { context := context }

/-- The current state. -/
def state (c : Configuration κ ν) : StateId := c.stateStack.head?.getD initialState

/-- The number of symbols that have been read. -/
def depth (c : Configuration κ ν) : Nat := c.stateStack.length

/-- The states that have been reached, the first one first. -/
def states (c : Configuration κ ν) : List StateId := c.stateStack.reverse

/-- The symbols that have been read, the first one first. -/
def symbols (c : Configuration κ ν) : List SymbolId := c.symbolStack.reverse

/-- Their values, the first one first. -/
def values (c : Configuration κ ν) : List ν := c.valueStack.reverse

/-- Where they stand, the first one first. -/
def locations (c : Configuration κ ν) : List Location := c.locationStack.reverse

/-- A symbol is put on the stacks. -/
def enter (c : Configuration κ ν) (target : StateId) (symbol : SymbolId) (value : ν)
    (location : Location) : Configuration κ ν :=
  { c with
    stateStack := target :: c.stateStack
    symbolStack := symbol :: c.symbolStack
    valueStack := value :: c.valueStack
    locationStack := location :: c.locationStack }

/-- The last `count` symbols are taken off the stacks. -/
def leave (c : Configuration κ ν) (count : Nat) : Configuration κ ν :=
  { c with
    stateStack := c.stateStack.drop count
    symbolStack := c.symbolStack.drop count
    valueStack := c.valueStack.drop count
    locationStack := c.locationStack.drop count }

/-- The names of the terminals that can come next. -/
def expected (g : Grammar κ ν) (c : Configuration κ ν) : List String :=
  (g.table.expected c.state).map g.table.symbols.name

/-! ### Reducing -/

/-- The location of symbols that stand at the given places, the first read first.  No symbols at all
stand at the end of the last token. -/
def extent (c : Configuration κ ν) (places : List Location) : Location :=
  match places.head?, places.getLast? with
  | some first, some last => first.through last
  | _, _ => .point c.lastPosition

/-- Takes the symbols of a production off the stacks and puts its left-hand side in their place. -/
def reduce (g : Grammar κ ν) (c : Configuration κ ν) (p : ProductionId) : Reduced κ ν :=
  match g.table.production? p with
  | none => .refused (.unknownProduction p)
  | some production =>
    let values := (c.valueStack.take production.length).reverse
    if values.length < production.length then .refused (.stackUnderflow p)
    else
      let location := c.extent (c.locationStack.take production.length).reverse
      let made := g.semantics.reduce c.context p values location
      let reduction : Reduction := ⟨p, production.lhs, production.length, location⟩
      let below := { c.leave production.length with context := made.1 }
      match g.table.goto? below.state production.lhs with
      | none => .stranded reduction below
      | some target => .completed reduction (below.enter target production.lhs made.2 location)

/-- Reduces as long as the tables call for it with the terminal `symbol` next.  `site` is where
that terminal stands. -/
def settle (g : Grammar κ ν) (symbol : SymbolId) (site : Location) :
    (patience : Nat) → Configuration κ ν → Option (Settled κ ν)
  | 0, _ => none
  | patience + 1, c =>
    match g.table.action? c.state symbol with
    | some (.reduce p) =>
      match c.reduce g p with
      | .refused fault => some ⟨[], c, .error (.invalidTable c.state fault site)⟩
      | .stranded r c' =>
        let fault := .missingGoto (g.table.symbols.name r.lhs)
        some ⟨[r], c', .error (.invalidTable c'.state fault site)⟩
      | .completed r c' =>
        (settle g symbol site patience c').map fun s => { s with reductions := r :: s.reductions }
    | action => some ⟨[], c, .ok action⟩

/-! ### Tokens and the end of input -/

/-- Puts a token on the stacks. -/
def shift (g : Grammar κ ν) (c : Configuration κ ν) (target : StateId) (symbol : SymbolId)
    (t : Token) (location : Location) : Configuration κ ν :=
  { c.enter target symbol (g.semantics.ofToken t) location with lastPosition := location.stop }

/-- Where a token stands; one without a location stands at the end of the one before it. -/
def siteOf (c : Configuration κ ν) (t : Token) : Location :=
  t.location.getD (.point c.lastPosition)

/-- Reads a token: reduces as far as the tables call for it and then shifts the token. -/
def push (g : Grammar κ ν) (patience : Nat) (c : Configuration κ ν) (t : Token) :
    Option (Turn κ ν) :=
  let site := c.siteOf t
  match g.terminal? t.kind with
  | none => some ⟨[], c, .error (.invalidToken t.kind site)⟩
  | some symbol =>
    (c.settle g symbol site patience).map fun s =>
      match s.verdict with
      | .error fault => ⟨s.reductions, s.after, .error fault⟩
      | .ok (some (.shift target)) =>
        ⟨s.reductions, s.after.shift g target symbol t site, .ok ()⟩
      | .ok _ =>
        ⟨s.reductions, s.after,
          .error (.unexpectedToken t.kind t.text site (s.after.expected g))⟩

/-- Ends the input: reduces as far as the tables call for it, after which they must accept. -/
def finish (g : Grammar κ ν) (patience : Nat) (c : Configuration κ ν) : Option (Turn κ ν) :=
  let site := .point c.lastPosition
  (c.settle g Symbols.endId site patience).map fun s =>
    match s.verdict with
    | .error fault => ⟨s.reductions, s.after, .error fault⟩
    | .ok (some .accept) => ⟨s.reductions, s.after, .ok ()⟩
    | .ok _ => ⟨s.reductions, s.after, .error (.unexpectedEnd site (s.after.expected g))⟩

/-- The value of a finished parse: that of the first symbol read. -/
def value (g : Grammar κ ν) (c : Configuration κ ν) : ν :=
  c.valueStack.getLast?.getD g.semantics.blank

/-- Reads tokens up to the first that fails. -/
def pushAll (g : Grammar κ ν) (patience : Nat) (c : Configuration κ ν) :
    List Token → Option (Configuration κ ν × Except ParseError Unit)
  | [] => some (c, .ok ())
  | t :: ts =>
    match c.push g patience t with
    | none => none
    | some turn =>
      match turn.result with
      | .error fault => some (turn.after, .error fault)
      | .ok () => pushAll g patience turn.after ts

end Configuration

/-- Parses a list of tokens in a context, and gives the context afterwards and the value of the
whole input or why there is none. -/
def Grammar.parse {κ ν : Type} (g : Grammar κ ν) (patience : Nat) (context : κ)
    (ts : List Token) : Option (κ × Except ParseError ν) :=
  match (Configuration.start context).pushAll g patience ts with
  | none => none
  | some (c, .error fault) => some (c.context, .error fault)
  | some (c, .ok ()) =>
    (c.finish g patience).map fun turn =>
      (turn.after.context, turn.result.map fun _ => turn.after.value g)

end ScriptReader
