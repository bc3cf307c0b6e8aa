import ScriptReader.Proofs.Parse.Paths

/-!
# How much patience is enough

Tables may keep a parse reducing for ever in two ways only: by productions without symbols, which
make the stacks higher, and by productions of one symbol, which leave them as high as they are.  If
there are none of the former, and the latter lead upwards in some ranking of the symbols, every
reduction uses up some of the room that there is for reductions, and they come to an end.

## Main Definitions

* `ParseTable.Ascends` — no production is empty, and those of one symbol go up in a ranking
* `Configuration.headroom` — how many reductions there is room for
* `Configuration.AnswersWithin` — tokens and the end of input call for a limited number of
  reductions

## Main Statements

* `Configuration.push_of_le`, `Configuration.finish_of_le` — more patience never changes an answer
* `Configuration.headroom_lt_of_completed` — every reduction uses up room
* `Configuration.answersWithin_of_ascends` — there are at most as many reductions as symbols on the
  stack times ranks
-/

namespace ScriptReader

/-- No production is empty.  Symbols have ranks up to `bound`, and wherever a state calls for a
production of one symbol, the symbols that lead to that state rank below its left-hand side. -/
structure ParseTable.Ascends (t : ParseTable) (rank : SymbolId → Nat) (bound : Nat) : Prop where
  /-- The bound of the ranks. -/
  bounded : ∀ x, rank x ≤ bound
  /-- Every production has a symbol. -/
  nonempty : ∀ {p production}, t.production? p = some production → 1 ≤ production.length
  /-- A symbol that is reduced by itself gives way to one of a higher rank. -/
  ascends : ∀ {q x p production}, t.action? q x = some (.reduce p) →
    t.production? p = some production → production.length = 1 →
    ∀ {q' y}, t.Leads q' y q → rank y < rank production.lhs

namespace Configuration

variable {κ ν : Type} {g : Grammar κ ν} {c c' : Configuration κ ν} {fs : List (Frame ν)}
variable {x : SymbolId} {site : Location} {t : Token} {patience more : Nat} {s : Settled κ ν}
variable {turn : Turn κ ν} {rs : List Reduction} {r : Reduction} {p : ProductionId}
variable {rank : SymbolId → Nat} {bound : Nat}

/-! ## More patience changes nothing -/

theorem settle_succ (h : c.settle g x site patience = some s) :
    c.settle g x site (patience + 1) = some s := by
  induction patience generalizing c s with
  | zero => simp [settle] at h
  | succ patience ih =>
    rw [settle] at h ⊢
    split at h
    case h_1 p called =>
      split at h
      case h_1 => exact h
      case h_2 => exact h
      case h_3 r c' made =>
        obtain ⟨s', hs', rfl⟩ := Option.map_eq_some_iff.1 h
        simp only [ih hs', Option.map_some]
    case h_2 => exact h

theorem settle_of_le (h : c.settle g x site patience = some s) (hle : patience ≤ more) :
    c.settle g x site more = some s := by
  induction hle with
  | refl => exact h
  | step _ ih => exact settle_succ ih

theorem push_of_le (h : c.push g patience t = some turn) (hle : patience ≤ more) :
    c.push g more t = some turn := by
  rw [push] at h ⊢
  split at h
  case h_1 => exact h
  case h_2 x hknown =>
    obtain ⟨s, hs, hturn⟩ := Option.map_eq_some_iff.1 h
    exact Option.map_eq_some_iff.2 ⟨s, settle_of_le hs hle, hturn⟩

theorem finish_of_le (h : c.finish g patience = some turn) (hle : patience ≤ more) :
    c.finish g more = some turn := by
  rw [finish] at h ⊢
  obtain ⟨s, hs, hturn⟩ := Option.map_eq_some_iff.1 h
  exact Option.map_eq_some_iff.2 ⟨s, settle_of_le hs hle, hturn⟩

/-! ## Room for reductions -/

/-- How many reductions there is room for: one for each rank above that of the last symbol, that of
the symbol itself, and one for each rank and each symbol before. -/
def headroom (rank : SymbolId → Nat) (bound : Nat) : List (Frame ν) → Nat
  | [] => 0
  | f :: fs => fs.length * (bound + 1) + (bound - rank f.symbol) + 1

theorem headroom_le (rank : SymbolId → Nat) (bound : Nat) (fs : List (Frame ν)) :
    headroom rank bound fs ≤ fs.length * (bound + 1) := by
  cases fs with
  | nil => exact Nat.zero_le _
  | cons f fs =>
    simp only [headroom, List.length_cons, Nat.add_mul, Nat.one_mul]
    omega

/-- A reduction that is begun takes something off the stack. -/
theorem exists_cons_of_begun (ht : g.table.Ascends rank bound) (hc : c.Holds fs)
    (hbegun : ∀ fault, c.reduce g p ≠ .refused fault) : ∃ f below, fs = f :: below := by
  obtain ⟨production, hp, hlen⟩ := hc.reduce_begun hbegun
  have hpos := ht.nonempty hp
  exact List.exists_cons_of_length_pos (by omega)

/-- **Every reduction uses up room.**  If more than one symbol is replaced, the stack gets lower,
which leaves less room whatever the rank of the new symbol; otherwise its rank is higher. -/
theorem headroom_lt_of_completed (ht : g.table.Ascends rank bound) (hc : c.Holds fs)
    (hfs : Traced g.table fs) (called : g.table.action? c.state x = some (.reduce p))
    (made : c.reduce g p = .completed r c') :
    ∃ fs', c'.Holds fs' ∧ Traced g.table fs' ∧
      headroom rank bound fs' < headroom rank bound fs := by
  obtain ⟨production, target, hp, hlen, hgoto, -, -, -, hc'⟩ := hc.completed made
  obtain ⟨f, below, rfl⟩ := exists_cons_of_begun (p := p) ht hc (by simp [made])
  refine ⟨_, hc', .cons (hfs.drop production.length) (.goto hgoto), ?_⟩
  have hpos := ht.nonempty hp
  rcases Nat.eq_or_lt_of_le hpos with hone | hmore
  · cases hfs with
    | cons _ leads =>
      rw [hc.state_eq, stateOf_cons] at called
      have hup := ht.ascends called hp hone.symm leads
      have htop := ht.bounded production.lhs
      simp only [headroom, ← hone, List.drop_succ_cons, List.drop_zero]
      omega
  · -- One frame at least is gone for good, and with it the room for as many reductions as ranks.
    have hgone : ((f :: below).drop production.length).length + 1 ≤ below.length := by
      simp only [List.length_drop, List.length_cons] at hlen ⊢
      omega
    have hroom := Nat.mul_le_mul_right (bound + 1) hgone
    rw [Nat.add_mul, Nat.one_mul] at hroom
    simp only [headroom]
    omega

/-- Reductions that are completed use up as much room as they are many. -/
theorem Reduces.length_add_headroom_le (ht : g.table.Ascends rank bound)
    (h : Reduces g x c rs c') (hc : c.Holds fs) (hfs : Traced g.table fs) :
    ∃ fs', c'.Holds fs' ∧ rs.length + headroom rank bound fs' ≤ headroom rank bound fs := by
  induction h generalizing fs with
  | refl => exact ⟨fs, hc, by simp⟩
  | step called made _ ih =>
    obtain ⟨fs₁, hc₁, hfs₁, hlower⟩ := headroom_lt_of_completed ht hc hfs called made
    obtain ⟨fs', hc', hle⟩ := ih hc₁ hfs₁
    refine ⟨fs', hc', ?_⟩
    rw [List.length_cons]
    omega

theorem Reduces.length_le (ht : g.table.Ascends rank bound) (h : Reduces g x c rs c')
    (hc : c.Holds fs) (hfs : Traced g.table fs) : rs.length ≤ headroom rank bound fs := by
  obtain ⟨_, -, hle⟩ := h.length_add_headroom_le ht hc hfs
  exact Nat.le_of_add_right_le hle

/-- There is room for all reductions that a terminal calls for, also for one whose result leads
nowhere. -/
theorem Settles.length_le (ht : g.table.Ascends rank bound) (h : Settles g x site c s)
    (hc : c.Holds fs) (hfs : Traced g.table fs) :
    s.reductions.length ≤ headroom rank bound fs := by
  cases h with
  | idle reduced => exact reduced.length_le ht hc hfs
  | refused reduced => exact reduced.length_le ht hc hfs
  | @stranded rs c' c'' p r reduced called lost =>
    obtain ⟨fs', hc', hle⟩ := reduced.length_add_headroom_le ht hc hfs
    obtain ⟨f, below, rfl⟩ := exists_cons_of_begun (p := p) ht hc' (by simp [lost])
    have hpos : 1 ≤ headroom rank bound (f :: below) := Nat.le_add_left 1 _
    rw [List.length_append, List.length_singleton]
    omega

theorem Pushes.length_le (ht : g.table.Ascends rank bound) (h : Pushes g c t turn)
    (hc : c.Holds fs) (hfs : Traced g.table fs) :
    turn.reductions.length ≤ headroom rank bound fs := by
  cases h with
  | unknown => exact Nat.zero_le _
  | shifted _ reduced => exact reduced.length_le ht hc hfs
  | unexpected _ reduced => exact reduced.length_le ht hc hfs
  | stuck _ settled => exact settled.length_le ht hc hfs

theorem Finishes.length_le (ht : g.table.Ascends rank bound) (h : Finishes g c turn)
    (hc : c.Holds fs) (hfs : Traced g.table fs) :
    turn.reductions.length ≤ headroom rank bound fs := by
  cases h with
  | accepted reduced => exact reduced.length_le ht hc hfs
  | unexpected reduced => exact reduced.length_le ht hc hfs
  | stuck settled => exact settled.length_le ht hc hfs

/-! ## Answers -/

/-- Reducing ends for patience that exceeds the room that there is. -/
theorem exists_settle (ht : g.table.Ascends rank bound) (hc : c.Holds fs)
    (hfs : Traced g.table fs) (x : SymbolId) (site : Location)
    (henough : headroom rank bound fs < patience) : ∃ s, c.settle g x site patience = some s := by
  induction patience generalizing c fs with
  | zero => exact absurd henough (Nat.not_lt_zero _)
  | succ patience ih =>
    rw [settle]
    split
    case h_1 p called =>
      split
      case h_1 => exact ⟨_, rfl⟩
      case h_2 => exact ⟨_, rfl⟩
      case h_3 r c' made =>
        obtain ⟨fs', hc', hfs', hlower⟩ := headroom_lt_of_completed ht hc hfs called made
        obtain ⟨s, hs⟩ := ih hc' hfs' (by omega)
        exact ⟨_, by rw [hs, Option.map_some]⟩
    case h_2 => exact ⟨_, rfl⟩

theorem exists_push (ht : g.table.Ascends rank bound) (hc : c.Holds fs)
    (hfs : Traced g.table fs) (t : Token) (henough : headroom rank bound fs < patience) :
    ∃ turn, c.push g patience t = some turn := by
  rw [push]
  split
  case h_1 => exact ⟨_, rfl⟩
  case h_2 x _ =>
    obtain ⟨s, hs⟩ := exists_settle ht hc hfs x (c.siteOf t) henough
    exact ⟨_, by rw [hs, Option.map_some]⟩

theorem exists_finish (ht : g.table.Ascends rank bound) (hc : c.Holds fs)
    (hfs : Traced g.table fs) (henough : headroom rank bound fs < patience) :
    ∃ turn, c.finish g patience = some turn := by
  obtain ⟨s, hs⟩ := exists_settle ht hc hfs Symbols.endId (.point c.lastPosition) henough
  exact ⟨_, by rw [finish, hs, Option.map_some]⟩

/-- Every token and the end of input are answered, if only by an error, after `limit` reductions at
the most have been begun; any patience beyond that gets the same answer. -/
structure AnswersWithin (g : Grammar κ ν) (c : Configuration κ ν) (limit : Nat) : Prop where
  /-- A token is shifted or fails. -/
  push : ∀ t, ∃ turn, turn.reductions.length ≤ limit ∧
    ∀ patience, limit < patience → c.push g patience t = some turn
  /-- The end of input is accepted or fails. -/
  finish : ∃ turn, turn.reductions.length ≤ limit ∧
    ∀ patience, limit < patience → c.finish g patience = some turn

/-- **Parses come to an end.**  If no production is empty and those of one symbol go up in a ranking
with at most `bound` ranks above the lowest, then, whatever has been pushed before and however much
of it has failed, no token and no end of input brings about more reductions than there are symbols
on the stack, times the number of ranks. -/
theorem answersWithin_of_ascends (ht : g.table.Ascends rank bound) (h : Reachable g c) :
    c.AnswersWithin g (c.depth * (bound + 1)) := by
  obtain ⟨fs, hc, hfs⟩ := h.exists_traced
  have hroom : headroom rank bound fs ≤ c.depth * (bound + 1) := by
    rw [depth, hc.states, List.length_map]
    exact headroom_le rank bound fs
  constructor
  · intro t
    obtain ⟨turn, hturn⟩ := exists_push ht hc hfs t (Nat.lt_succ_of_le hroom)
    exact ⟨turn, Nat.le_trans ((pushes_of_push hturn).length_le ht hc hfs) hroom,
      fun _ hlt => push_of_le hturn hlt⟩
  · obtain ⟨turn, hturn⟩ := exists_finish ht hc hfs (Nat.lt_succ_of_le hroom)
    exact ⟨turn, Nat.le_trans ((finishes_of_finish hturn).length_le ht hc hfs) hroom,
      fun _ hlt => finish_of_le hturn hlt⟩

/-- A word is on the stack as such and may yet become a list, which ranks above it. -/
theorem answersWithin_lists :
    ParseTable.lists.Ascends (fun x => if x = 2 then 1 else 0) 1 ∧
      ∃ c : Configuration Unit Unit, Reachable ⟨.lists, noValues⟩ c ∧ c.symbols = [1] ∧
        c.AnswersWithin ⟨.lists, noValues⟩ 2 := by
  let g : Grammar Unit Unit := ⟨.lists, noValues⟩
  have ht : g.table.Ascends (fun x => if x = 2 then 1 else 0) 1 := by
    refine ⟨fun x => by split <;> decide, ?_, ?_⟩
    · intro p production hp
      simp only [g, ParseTable.lists_production?] at hp
      grind
    · intro q x p production hcalled hp hone q' y hleads
      simp only [g, ParseTable.lists_production?, ParseTable.lists_action?] at hp hcalled
      -- The only production of one symbol is called for in state 2, to which only words lead.
      obtain ⟨rfl, hlhs⟩ : q = 2 ∧ production.lhs = 2 := by grind
      have hy : y ≠ 2 := by
        cases hleads with
        | shift _ _ found =>
          simp only [g, ParseTable.lists_action?] at found
          grind
        | goto found =>
          simp only [g, ParseTable.lists_goto?] at found
          grind
      simp [hy, hlhs]
  obtain ⟨turn, hturn, hc⟩ : ∃ turn, (start ()).push g 1 (wordAt 0) = some turn ∧
      turn.after = ⟨(), [2], [1], [()], [.point default], default⟩ := by
    simp [push, g, lists_terminal?_identifier, wordAt, settle, state, start,
      ParseTable.lists_action?, initialState, shift, enter, siteOf, Location.point, noValues]
  have hreach : Reachable g turn.after := .push (.start ()) hturn
  have hanswers := answersWithin_of_ascends ht hreach
  rw [hc] at hreach hanswers
  exact ⟨ht, _, hreach, rfl, hanswers⟩

end Configuration

end ScriptReader
