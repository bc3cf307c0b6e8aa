import ScriptReader.Parse.Configuration

/-!
# What becomes of a token

`Configuration.settle`, `Configuration.push` and `Configuration.finish` are loops with several
exits.  This module says once, as relations without patience, what they can do; everything that is
proved about runs of the parser goes through these relations and opens none of the loops again.

## Main Definitions

* `Configuration.Reduces` — the reductions that are completed while a terminal waits
* `Configuration.Settles` — the ways in which reducing ends
* `Configuration.Pushes`, `Configuration.Finishes` — the ways in which a token and the end of input
  end
* `Configuration.Reachable` — what any tokens lead to, those that fail included

## Main Statements

* `Configuration.pushes_of_push` — a token has no other outcome than these
* `Configuration.Reachable.invariant` — what shifting and reducing preserve holds throughout
-/

namespace ScriptReader.Configuration

variable {κ ν : Type} {g : Grammar κ ν} {c c' : Configuration κ ν}

/-! ## The outcomes -/

/-- While the terminal `x` waits, the reductions `rs` are called for and completed one after
another, and lead from the first configuration to the second. -/
inductive Reduces (g : Grammar κ ν) (x : SymbolId) :
    Configuration κ ν → List Reduction → Configuration κ ν → Prop
  | refl (c : Configuration κ ν) : Reduces g x c [] c
  | step {c c' c'' : Configuration κ ν} {p : ProductionId} {r : Reduction} {rs : List Reduction}
      (called : g.table.action? c.state x = some (.reduce p))
      (made : c.reduce g p = .completed r c') (rest : Reduces g x c' rs c'') :
      Reduces g x c (r :: rs) c''

/-- The ways in which reducing ends: nothing more is called for, a reduction cannot be begun, or its
result leads nowhere. -/
inductive Settles (g : Grammar κ ν) (x : SymbolId) (site : Location) (c : Configuration κ ν) :
    Settled κ ν → Prop
  | idle {rs : List Reduction} {c' : Configuration κ ν} (reduced : Reduces g x c rs c')
      (still : ∀ p, g.table.action? c'.state x ≠ some (.reduce p)) :
      Settles g x site c ⟨rs, c', .ok (g.table.action? c'.state x)⟩
  | refused {rs : List Reduction} {c' : Configuration κ ν} {p : ProductionId}
      {fault : Inconsistency} (reduced : Reduces g x c rs c')
      (called : g.table.action? c'.state x = some (.reduce p))
      (refused : c'.reduce g p = .refused fault) :
      Settles g x site c ⟨rs, c', .error (.invalidTable c'.state fault site)⟩
  | stranded {rs : List Reduction} {c' c'' : Configuration κ ν} {p : ProductionId} {r : Reduction}
      (reduced : Reduces g x c rs c')
      (called : g.table.action? c'.state x = some (.reduce p))
      (lost : c'.reduce g p = .stranded r c'') :
      Settles g x site c
        ⟨rs ++ [r], c'',
          .error (.invalidTable c''.state (.missingGoto (g.table.symbols.name r.lhs)) site)⟩

/-- The ways in which a token ends: its kind has no terminal, it is shifted, it cannot come next, or
the tables contradict themselves. -/
inductive Pushes (g : Grammar κ ν) (c : Configuration κ ν) (t : Token) : Turn κ ν → Prop
  | unknown (unknown : g.terminal? t.kind = none) :
      Pushes g c t ⟨[], c, .error (.invalidToken t.kind (c.siteOf t))⟩
  | shifted {x : SymbolId} {q : StateId} {rs : List Reduction} {c' : Configuration κ ν}
      (known : g.terminal? t.kind = some x) (reduced : Reduces g x c rs c')
      (called : g.table.action? c'.state x = some (.shift q)) :
      Pushes g c t ⟨rs, c'.shift g q x t (c.siteOf t), .ok ()⟩
  | unexpected {x : SymbolId} {rs : List Reduction} {c' : Configuration κ ν}
      (known : g.terminal? t.kind = some x) (reduced : Reduces g x c rs c')
      (still : ∀ p, g.table.action? c'.state x ≠ some (.reduce p))
      (unshiftable : ∀ q, g.table.action? c'.state x ≠ some (.shift q)) :
      Pushes g c t
        ⟨rs, c', .error (.unexpectedToken t.kind t.text (c.siteOf t) (c'.expected g))⟩
  | stuck {x : SymbolId} {rs : List Reduction} {c' : Configuration κ ν} {fault : ParseError}
      (known : g.terminal? t.kind = some x)
      (settled : Settles g x (c.siteOf t) c ⟨rs, c', .error fault⟩) :
      Pushes g c t ⟨rs, c', .error fault⟩

/-- The ways in which the end of input ends: it is accepted, it cannot come here, or the tables
contradict themselves. -/
inductive Finishes (g : Grammar κ ν) (c : Configuration κ ν) : Turn κ ν → Prop
  | accepted {rs : List Reduction} {c' : Configuration κ ν}
      (reduced : Reduces g Symbols.endId c rs c')
      (called : g.table.action? c'.state Symbols.endId = some .accept) :
      Finishes g c ⟨rs, c', .ok ()⟩
  | unexpected {rs : List Reduction} {c' : Configuration κ ν}
      (reduced : Reduces g Symbols.endId c rs c')
      (still : ∀ p, g.table.action? c'.state Symbols.endId ≠ some (.reduce p))
      (unaccepted : g.table.action? c'.state Symbols.endId ≠ some .accept) :
      Finishes g c ⟨rs, c', .error (.unexpectedEnd (.point c.lastPosition) (c'.expected g))⟩
  | stuck {rs : List Reduction} {c' : Configuration κ ν} {fault : ParseError}
      (settled : Settles g Symbols.endId (.point c.lastPosition) c ⟨rs, c', .error fault⟩) :
      Finishes g c ⟨rs, c', .error fault⟩

/-! ## There are no others -/

/-- One more reduction in front changes nothing about how reducing ends. -/
theorem Settles.cons {x : SymbolId} {site : Location} {p : ProductionId} {r : Reduction}
    {s : Settled κ ν} (called : g.table.action? c.state x = some (.reduce p))
    (made : c.reduce g p = .completed r c') (h : Settles g x site c' s) :
    Settles g x site c { s with reductions := r :: s.reductions } := by
  cases h with
  | idle reduced still => exact .idle (.step called made reduced) still
  | refused reduced called' refused => exact .refused (.step called made reduced) called' refused
  | stranded reduced called' lost => exact .stranded (.step called made reduced) called' lost

theorem settles_of_settle {x : SymbolId} {site : Location} {patience : Nat} {s : Settled κ ν}
    (h : c.settle g x site patience = some s) : Settles g x site c s := by
  induction patience generalizing c s with
  | zero => simp [settle] at h
  | succ patience ih =>
    rw [settle] at h
    split at h
    case h_1 p called =>
      split at h
      case h_1 fault hrefused =>
        obtain rfl := Option.some.inj h
        exact .refused (.refl c) called hrefused
      case h_2 r c' hlost =>
        obtain rfl := Option.some.inj h
        exact .stranded (.refl c) called hlost
      case h_3 r c' hmade =>
        obtain ⟨s', hs', rfl⟩ := Option.map_eq_some_iff.1 h
        exact (ih hs').cons called hmade
    case h_2 still =>
      obtain rfl := Option.some.inj h
      exact .idle (.refl c) still

theorem pushes_of_push {t : Token} {patience : Nat} {turn : Turn κ ν}
    (h : c.push g patience t = some turn) : Pushes g c t turn := by
  rw [push] at h
  split at h
  case h_1 hnone =>
    obtain rfl := Option.some.inj h
    exact .unknown hnone
  case h_2 x hknown =>
    obtain ⟨s, hs, rfl⟩ := Option.map_eq_some_iff.1 h
    have hsettles := settles_of_settle hs
    cases hsettles with
    | idle reduced still =>
      split
      case h_1 heq => cases heq
      case h_2 q heq => exact .shifted hknown reduced (Except.ok.inj heq)
      case h_3 action hno heq =>
        obtain rfl := Except.ok.inj heq
        exact .unexpected hknown reduced still hno
    | refused reduced called hrefused => exact .stuck hknown (.refused reduced called hrefused)
    | stranded reduced called hlost => exact .stuck hknown (.stranded reduced called hlost)

theorem finishes_of_finish {patience : Nat} {turn : Turn κ ν}
    (h : c.finish g patience = some turn) : Finishes g c turn := by
  rw [finish] at h
  obtain ⟨s, hs, rfl⟩ := Option.map_eq_some_iff.1 h
  have hsettles := settles_of_settle hs
  cases hsettles with
  | idle reduced still =>
    split
    case h_1 heq => cases heq
    case h_2 heq => exact .accepted reduced (Except.ok.inj heq)
    case h_3 action hno heq =>
      obtain rfl := Except.ok.inj heq
      exact .unexpected reduced still hno
  | refused reduced called hrefused => exact .stuck (.refused reduced called hrefused)
  | stranded reduced called hlost => exact .stuck (.stranded reduced called hlost)

/-! ## Runs -/

/-- What any tokens lead to from the start, whether they were shifted or failed. -/
inductive Reachable (g : Grammar κ ν) : Configuration κ ν → Prop
  | start (context : κ) : Reachable g (start context)
  | push {c : Configuration κ ν} {t : Token} {patience : Nat} {turn : Turn κ ν}
      (before : Reachable g c) (pushed : c.push g patience t = some turn) : Reachable g turn.after

/-- What a completed reduction preserves is preserved by any number of them. -/
theorem Reduces.invariant {P : Configuration κ ν → Prop} {x : SymbolId} {rs : List Reduction}
    (completed : ∀ {c c' p r}, P c → g.table.action? c.state x = some (.reduce p) →
      c.reduce g p = .completed r c' → P c')
    (h : Reduces g x c rs c') (hc : P c) : P c' := by
  induction h with
  | refl => exact hc
  | step called made _ ih => exact ih (completed hc called made)

/-- What reductions preserve holds when they have ended, in whichever way. -/
theorem Settles.invariant {P : Configuration κ ν → Prop} {x : SymbolId} {site : Location}
    {s : Settled κ ν} (completed : ∀ {c c' p r}, P c → c.reduce g p = .completed r c' → P c')
    (stranded : ∀ {c c' p r}, P c → c.reduce g p = .stranded r c' → P c')
    (h : Settles g x site c s) (hc : P c) : P s.after := by
  have hreduced {rs : List Reduction} {c' : Configuration κ ν} (reduced : Reduces g x c rs c') :
      P c' := reduced.invariant (fun hc _ => completed hc) hc
  cases h with
  | idle reduced => exact hreduced reduced
  | refused reduced => exact hreduced reduced
  | stranded reduced _ lost => exact stranded (hreduced reduced) lost

/-- What reductions and shifts preserve is preserved by a token, even by one that fails. -/
theorem Pushes.invariant {P : Configuration κ ν → Prop} {t : Token} {turn : Turn κ ν}
    (completed : ∀ {c c' p r}, P c → c.reduce g p = .completed r c' → P c')
    (stranded : ∀ {c c' p r}, P c → c.reduce g p = .stranded r c' → P c')
    (shift : ∀ {c x q t l}, P c → g.terminal? t.kind = some x →
      g.table.action? c.state x = some (.shift q) → P (c.shift g q x t l))
    (h : Pushes g c t turn) (hc : P c) : P turn.after := by
  have hreduced {x : SymbolId} {rs : List Reduction} {c' : Configuration κ ν}
      (reduced : Reduces g x c rs c') : P c' := reduced.invariant (fun hc _ => completed hc) hc
  cases h with
  | unknown => exact hc
  | shifted known reduced called => exact shift (hreduced reduced) known called
  | unexpected _ reduced => exact hreduced reduced
  | stuck _ settled => exact settled.invariant completed stranded hc

/-- **What reductions and shifts preserve holds throughout**, whatever tokens are pushed and however
many of them fail. -/
theorem Reachable.invariant {P : Configuration κ ν → Prop}
    (initially : ∀ context, P (.start context))
    (completed : ∀ {c c' p r}, P c → c.reduce g p = .completed r c' → P c')
    (stranded : ∀ {c c' p r}, P c → c.reduce g p = .stranded r c' → P c')
    (shift : ∀ {c x q t l}, P c → g.terminal? t.kind = some x →
      g.table.action? c.state x = some (.shift q) → P (c.shift g q x t l))
    (h : Reachable g c) : P c := by
  induction h with
  | start context => exact initially context
  | push _ pushed ih => exact (pushes_of_push pushed).invariant completed stranded shift ih

end ScriptReader.Configuration
