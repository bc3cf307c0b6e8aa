import ScriptReader.Proofs.Parse.Visits
import ScriptReader.Proofs.Source.LineMap

/-!
# Locations in a parse

If tokens stand one after another in a source, so do the symbols on the stack: none of them runs
backwards, and each ends before the next begins.  A reduction stands where its symbols do, and one
without symbols at the end of the last token, where nothing on the stack is in its way.

## Main Definitions

* `Location.Encloses` — a range lies within another
* `Location.InOrder` — ranges stand one after another
* `LaidOut` — tokens stand one after another
* `Configuration.InOrder` — the symbols on the stack do
* `Configuration.Places` — a reduction is placed around its symbols
* `Configuration.OrderedUpTo` — the stack and the tokens that are left are in order
* `Grammar.KeepsOrder` — all of that holds throughout a parse, and errors stand after what was read

## Main Statements

* `Configuration.Visits.orderedUpTo` — whatever a parse comes upon is in order
* `Grammar.keepsOrder_of_laidOut` — a parse of tokens that are laid out keeps the order
-/

namespace ScriptReader

/-! ## Ranges in order -/

namespace Location

/-- The range `inner` lies within `outer`. -/
structure Encloses (outer inner : Location) : Prop where
  /-- It does not begin before. -/
  start : outer.start ≤ inner.start
  /-- It does not end after. -/
  stop : inner.stop ≤ outer.stop

/-- The ranges stand one after another and end at `last` or before. -/
structure InOrder (ls : List Location) (last : Position) : Prop where
  /-- None runs backwards. -/
  forward : ∀ l ∈ ls, l.start ≤ l.stop
  /-- Each ends before those after it begin. -/
  apart : ls.Pairwise fun l m => l.stop ≤ m.start
  /-- All have ended. -/
  ended : ∀ l ∈ ls, l.stop ≤ last

namespace InOrder

variable {ls ms : List Location} {l m : Location} {last : Position}

theorem nil (last : Position) : InOrder [] last := ⟨by simp, .nil, by simp⟩

theorem append_iff : InOrder (ls ++ ms) last ↔
    InOrder ls last ∧ InOrder ms last ∧ ∀ l ∈ ls, ∀ m ∈ ms, l.stop ≤ m.start := by
  constructor
  · rintro ⟨forward, apart, ended⟩
    obtain ⟨hls, hms, hboth⟩ := List.pairwise_append.1 apart
    obtain ⟨hforward, hforward'⟩ := List.forall_mem_append.1 forward
    obtain ⟨hended, hended'⟩ := List.forall_mem_append.1 ended
    exact ⟨⟨hforward, hls, hended⟩, ⟨hforward', hms, hended'⟩, hboth⟩
  · rintro ⟨hls, hms, hboth⟩
    exact ⟨List.forall_mem_append.2 ⟨hls.forward, hms.forward⟩,
      List.pairwise_append.2 ⟨hls.apart, hms.apart, hboth⟩,
      List.forall_mem_append.2 ⟨hls.ended, hms.ended⟩⟩

theorem singleton (hforward : l.start ≤ l.stop) (hended : l.stop ≤ last) : InOrder [l] last :=
  ⟨by simpa, List.pairwise_singleton _ _, by simpa⟩

/-- A range that begins after all others have ended comes last. -/
theorem concat (h : InOrder ls last) (hafter : last ≤ l.start) (hforward : l.start ≤ l.stop) :
    InOrder (ls ++ [l]) l.stop := by
  refine append_iff.2 ⟨⟨h.forward, h.apart, ?_⟩, singleton hforward (le_refl _), ?_⟩
  · intro m hm
    exact ((h.ended m hm).trans hafter).trans hforward
  · intro m hm l' hl'
    rw [List.mem_singleton.1 hl']
    exact (h.ended m hm).trans hafter

/-- The first of them begins before all others. -/
theorem start_le (h : InOrder ls last) (hl : ls.head? = some l) : ∀ m ∈ ls, l.start ≤ m.start := by
  obtain ⟨ls', rfl⟩ := List.head?_eq_some_iff.1 hl
  refine List.forall_mem_cons.2 ⟨le_refl _, ?_⟩
  intro m hm
  exact (h.forward l List.mem_cons_self).trans ((List.pairwise_cons.1 h.apart).1 m hm)

/-- The last of them ends after all others. -/
theorem stop_le (h : InOrder ls last) (hl : ls.getLast? = some l) : ∀ m ∈ ls, m.stop ≤ l.stop := by
  obtain ⟨ls', rfl⟩ := List.getLast?_eq_some_iff.1 hl
  obtain ⟨-, hone, hboth⟩ := append_iff.1 h
  refine List.forall_mem_append.2 ⟨?_, by simp⟩
  intro m hm
  have hl' := List.mem_singleton_self l
  exact (hboth m hm l hl').trans (hone.forward l hl')

end InOrder

end Location

/-! ## Tokens in order -/

/-- The tokens have locations that stand one after another from `p` on. -/
inductive LaidOut : Position → List Token → Prop
  | nil (p : Position) : LaidOut p []
  | cons {p : Position} {t : Token} {ts : List Token} {l : Location}
      (located : t.location = some l) (after : p ≤ l.start) (forward : l.start ≤ l.stop)
      (rest : LaidOut l.stop ts) : LaidOut p (t :: ts)

/-- Where the last of the tokens ends; the start of the source if there is none. -/
def endOf (ts : List Token) : Position :=
  ((ts.getLast?.bind Token.location).map Location.stop).getD default

theorem endOf_concat {t : Token} {l : Location} (ts : List Token) (h : t.location = some l) :
    endOf (ts ++ [t]) = l.stop := by
  simp [endOf, h]

/-! ## The stack in order -/

namespace Configuration

variable {κ ν : Type} {g : Grammar κ ν} {c c' : Configuration κ ν} {context : κ}
variable {ts read rest : List Token} {p : ProductionId} {r : Reduction}

/-- The symbols on the stack stand one after another, and none ends after the last token that was
shifted. -/
def InOrder (c : Configuration κ ν) : Prop := Location.InOrder c.locations c.lastPosition

/-- The reduction of `p` in `c`, which leads to `c'`, stands around the symbols that it takes off
the stack, and this is the location that the semantics is given. -/
structure Places (g : Grammar κ ν) (c : Configuration κ ν) (p : ProductionId) (r : Reduction)
    (c' : Configuration κ ν) : Prop where
  /-- As many symbols are taken off as the production is long. -/
  length : ∃ production, g.table.production? p = some production ∧ r.length = production.length
  /-- The location does not run backwards. -/
  forward : r.location.start ≤ r.location.stop
  /-- It encloses those of the symbols. -/
  encloses : ∀ l ∈ c.locationStack.take r.length, r.location.Encloses l
  /-- It is what the context and the reducer are told. -/
  told : c'.context =
    (g.semantics.reduce c.context p (c.valueStack.take r.length).reverse r.location).1

/-- The location of symbols that stand in order encloses them, and can take their place. -/
theorem inOrder_extent {below above : List Location}
    (h : Location.InOrder (below ++ above) c.lastPosition) :
    (∀ l ∈ above, (c.extent above).Encloses l) ∧
      Location.InOrder (below ++ [c.extent above]) c.lastPosition := by
  obtain ⟨hbelow, habove, hboth⟩ := Location.InOrder.append_iff.1 h
  cases hfirst : above.head? with
  | none =>
    obtain rfl := List.head?_eq_none_iff.1 hfirst
    exact ⟨by simp, hbelow.concat (le_refl _) (le_refl _)⟩
  | some first =>
    have hmem : first ∈ above := List.mem_of_mem_head? hfirst
    obtain ⟨last, hlast⟩ := Option.isSome_iff_exists.1
      (List.getLast?_isSome.2 (List.ne_nil_of_mem hmem))
    have hextent : c.extent above = first.through last := by simp [extent, hfirst, hlast]
    rw [hextent]
    refine ⟨fun l hl => ⟨habove.start_le hfirst l hl, habove.stop_le hlast l hl⟩,
      Location.InOrder.append_iff.2 ⟨hbelow, .singleton ?_ ?_, ?_⟩⟩
    · exact (habove.forward first hmem).trans (habove.stop_le hlast first hmem)
    · exact habove.ended last (List.mem_of_getLast? hlast)
    · intro l hl m hm
      rw [List.mem_singleton.1 hm]
      exact hboth l hl first hmem

/-- The symbols on the stack are those that are left by a reduction and those that it takes. -/
theorem locations_eq_append (c : Configuration κ ν) (n : Nat) :
    c.locations = (c.locationStack.drop n).reverse ++ (c.locationStack.take n).reverse := by
  rw [locations, ← List.reverse_append, List.take_append_drop]

/-! ### Steps -/

theorem inOrder_start (context : κ) : (start context : Configuration κ ν).InOrder :=
  .nil _

/-- A reduction whose symbols stand in order is placed around them. -/
theorem InOrder.places (h : c.InOrder) (hb : Begins g c p r c') : Places g c p r c' := by
  rw [InOrder, c.locations_eq_append r.length] at h
  obtain ⟨production, hproduction, hlength, hlocation, hcontext, -, -⟩ := hb.made
  obtain ⟨hencloses, hinOrder⟩ := inOrder_extent h
  rw [← hlocation] at hencloses hinOrder
  exact {
    length := ⟨production, hproduction, hlength⟩
    forward := hinOrder.forward _ (by simp)
    encloses := fun l hl => hencloses l (by simpa using hl)
    told := hcontext }

/-- A reduction leaves the stack in order, whether or not its left-hand side is put on it. -/
theorem InOrder.begins (h : c.InOrder) (hb : Begins g c p r c') : c'.InOrder := by
  rw [InOrder, c.locations_eq_append r.length] at h
  obtain ⟨_, -, -, hlocation, -, hlast, hlost | hmade⟩ := hb.made
  · rw [InOrder, hlast, locations, hlost]
    exact (Location.InOrder.append_iff.1 h).1
  · rw [InOrder, hlast, locations, hmade, List.reverse_cons, hlocation]
    exact (inOrder_extent h).2

/-- A token that begins where the last one ended, or after that, comes to stand last. -/
theorem InOrder.shift (h : c.InOrder) (q : StateId) (x : SymbolId) (t : Token) {l : Location}
    (hafter : c.lastPosition ≤ l.start) (hforward : l.start ≤ l.stop) :
    (c.shift g q x t l).InOrder := by
  have hlocations : (c.shift g q x t l).locations = c.locations ++ [l] := List.reverse_cons
  rw [InOrder, hlocations]
  exact Location.InOrder.concat h hafter hforward

/-! ### Runs -/

/-- The tokens `read` have been read and `rest` are left: the stack is in order, and what is left
stands after what has been read. -/
structure OrderedUpTo (c : Configuration κ ν) (read rest : List Token) : Prop where
  /-- The stack is in order. -/
  stack : c.InOrder
  /-- It is known where the last token read ends. -/
  last : c.lastPosition = endOf read
  /-- The other tokens stand after that. -/
  ahead : LaidOut c.lastPosition rest

theorem Visits.orderedUpTo (hts : LaidOut default ts) (h : Visits g context ts read rest c) :
    c.OrderedUpTo read rest := by
  -- The tokens that are left belong to the invariant, since a shift is in order only if the next
  -- one does not begin before the last one ends.
  induction h with
  | start => exact ⟨inOrder_start context, rfl, hts⟩
  | reduced _ _ _ begun ih =>
    have hlast := begun.lastPosition_eq
    exact ⟨ih.stack.begins begun, hlast.trans ih.last, hlast ▸ ih.ahead⟩
  | @shifted read rest t c x q _ _ _ ih =>
    cases ih.ahead with
    | @cons _ _ _ l located after forward ahead =>
      have hsite : c.siteOf t = l := by simp [siteOf, located]
      rw [hsite]
      exact ⟨ih.stack.shift q x t after forward, (endOf_concat read located).symm, ahead⟩

/-- An error does not stand before the end of what has been read. -/
theorem OrderedUpTo.le_siteAhead (h : c.OrderedUpTo read rest) :
    endOf read ≤ (c.siteAhead rest).start := by
  rw [← h.last]
  cases h.ahead with
  | nil => exact le_refl _
  | @cons _ t _ l located after => simpa [siteAhead, siteOf, located] using after

end Configuration

/-! ## Parses in order -/

/-- Locations are in order throughout a parse of `ts` in a context, also if it never ends. -/
structure Grammar.KeepsOrder {κ ν : Type} (g : Grammar κ ν) (context : κ) (ts : List Token) :
    Prop where
  /-- Whatever the parse comes upon, the stack is in order, and it is known where the last token
  read ends. -/
  stack : ∀ {read rest c}, Configuration.Visits g context ts read rest c →
    c.InOrder ∧ c.lastPosition = endOf read
  /-- Every reduction that is called for and can be begun is placed around its symbols. -/
  reductions : ∀ {read rest c x p r c'}, Configuration.Visits g context ts read rest c →
    g.ahead? rest = some x → g.table.action? c.state x = some (.reduce p) →
    Configuration.Begins g c p r c' → Configuration.Places g c p r c'
  /-- An error stands after the last token that was read. -/
  errors : ∀ {patience after fault}, g.parse patience context ts = some (after, .error fault) →
    ∃ read rest c, read ++ rest = ts ∧ Configuration.Visits g context ts read rest c ∧
      g.run patience context ts = some (c, .error fault) ∧ endOf read ≤ fault.location.start

/-- A parse of tokens that stand one after another keeps locations in order. -/
theorem Grammar.keepsOrder_of_laidOut {κ ν : Type} (g : Grammar κ ν) (context : κ)
    {ts : List Token} (hts : LaidOut default ts) : g.KeepsOrder context ts where
  stack h := ⟨(h.orderedUpTo hts).stack, (h.orderedUpTo hts).last⟩
  reductions h _ _ begun := (h.orderedUpTo hts).stack.places begun
  errors := by
    intro patience after fault h
    rw [g.parse_eq_run] at h
    obtain ⟨⟨c, result⟩, hrun, hresult⟩ := Option.map_eq_some_iff.1 h
    obtain ⟨-, hfault⟩ := Prod.mk.inj hresult
    cases result with
    | ok => cases hfault
    | error fault' =>
      obtain rfl := Except.error.inj hfault
      cases Grammar.ends_of_run hrun with
      | @failed read rest _ visits site =>
        refine ⟨read, rest, c, visits.read_append_rest, visits, hrun, ?_⟩
        rw [site]
        exact (visits.orderedUpTo hts).le_siteAhead

end ScriptReader
