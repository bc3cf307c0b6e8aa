import Mathlib.Data.List.Infix
import ScriptReader.Token.Basic

/-!
# Groups that brackets open and close

Where brackets of several kinds are not told apart, a closing bracket closes the innermost group
that is open.  Seen from an opening bracket, that is the first closing one with nothing left open
between the two.

## Main Definitions

* `BracketsClose` — all brackets that are opened are closed, and so are some that were open before
* `ClosesGroup` — the token at one place closes the group that the token at another place opens
* `afterGroup` — what follows the innermost of the groups that are open, found by counting

## Main Statements

* `afterGroup_eq_some_iff` — what is found by counting follows a stretch in which brackets close
* `exists_closesGroup_iff` — counting tells what follows the group that a token opens

## Design Notes

A closing bracket with nothing open closes no group.  Nothing need be said about it, since there is
none between the two ends of a group.
-/

namespace ScriptReader

/-- Of the brackets of some kinds all that are opened are closed, and `depth` more that were open
before. -/
structure BracketsClose (opens closes : List TokenKind) (depth : Nat) (ks : List TokenKind) :
    Prop where
  /-- Up to any place no others have been closed. -/
  closed_le : ∀ ls, ls <+: ks → ls.countP closes.contains ≤ ls.countP opens.contains + depth
  /-- In all so many are closed. -/
  closed_eq : ks.countP closes.contains = ks.countP opens.contains + depth

instance (opens closes : List TokenKind) (depth : Nat) (ks : List TokenKind) :
    Decidable (BracketsClose opens closes depth ks) :=
  decidable_of_iff
    ((∀ ls ∈ ks.inits, ls.countP closes.contains ≤ ls.countP opens.contains + depth) ∧
      ks.countP closes.contains = ks.countP opens.contains + depth)
    ⟨fun h => ⟨fun ls hls => h.1 ls ((List.mem_inits ls ks).2 hls), h.2⟩,
      fun h => ⟨fun ls hls => h.closed_le ls ((List.mem_inits ls ks).1 hls), h.closed_eq⟩⟩

/-- The token at place `j` closes the group that the token at place `i` opens. -/
structure ClosesGroup (opens closes : List TokenKind) (ts : List Token) (i j : Nat) : Prop where
  /-- The group is closed after it is opened. -/
  lt : i < j
  /-- It is opened by a bracket. -/
  opener : ∃ t ∈ ts[i]?, t.kind ∈ opens
  /-- It is closed by a bracket. -/
  closer : ∃ t ∈ ts[j]?, t.kind ∈ closes
  /-- All brackets in it are closed in it, and it is not closed earlier. -/
  inner : BracketsClose opens closes 0 (((ts.take j).drop (i + 1)).map Token.kind)

instance (opens closes : List TokenKind) (ts : List Token) (i j : Nat) :
    Decidable (ClosesGroup opens closes ts i j) :=
  decidable_of_iff
    (i < j ∧ (∃ t ∈ ts[i]?, t.kind ∈ opens) ∧ (∃ t ∈ ts[j]?, t.kind ∈ closes) ∧
      BracketsClose opens closes 0 (((ts.take j).drop (i + 1)).map Token.kind))
    ⟨fun h => ⟨h.1, h.2.1, h.2.2.1, h.2.2.2⟩, fun h => ⟨h.lt, h.opener, h.closer, h.inner⟩⟩

/-- What follows the innermost of the groups that are open, if it is closed at all.  Of the groups
that have been opened since, `depth` are still open. -/
def afterGroup (opens closes : List TokenKind) : Nat → List Token → Option (List Token)
  | _, [] => none
  | depth, t :: ts =>
    if opens.contains t.kind then afterGroup opens closes (depth + 1) ts
    else if !closes.contains t.kind then afterGroup opens closes depth ts
    else if depth = 0 then some ts
    else afterGroup opens closes (depth - 1) ts

variable {opens closes follows ks : List TokenKind} {k : TokenKind} {depth j : Nat} {t : Token}
  {ts front back : List Token}

/-! ## Brackets that close -/

theorem bracketsClose_nil_iff : BracketsClose opens closes depth [] ↔ depth = 0 := by
  constructor
  · intro h
    simpa using h.closed_eq.symm
  · rintro rfl
    exact ⟨fun ls hls => by simp [List.prefix_nil.1 hls], rfl⟩

/-- After the first bracket fewer or more of them are still to be closed. -/
theorem bracketsClose_cons_iff :
    BracketsClose opens closes depth (k :: ks) ↔
      ∃ outer, outer + (if closes.contains k then 1 else 0) =
          depth + (if opens.contains k then 1 else 0) ∧
        BracketsClose opens closes outer ks := by
  constructor
  · intro h
    have hfirst := h.closed_le [k] ((List.prefix_cons_inj k).2 List.nil_prefix)
    rw [List.countP_cons, List.countP_cons, List.countP_nil, List.countP_nil] at hfirst
    refine ⟨depth + (if opens.contains k then 1 else 0) - (if closes.contains k then 1 else 0),
      by omega, fun ls hls => ?_, ?_⟩
    · have hle := h.closed_le (k :: ls) ((List.prefix_cons_inj k).2 hls)
      rw [List.countP_cons, List.countP_cons] at hle
      omega
    · have heq := h.closed_eq
      rw [List.countP_cons, List.countP_cons] at heq
      omega
  · rintro ⟨outer, hdepth, h⟩
    refine ⟨fun ls hls => ?_, ?_⟩
    · rcases List.prefix_cons_iff.1 hls with rfl | ⟨rest, rfl, hrest⟩
      · simp
      · have hle := h.closed_le rest hrest
        rw [List.countP_cons, List.countP_cons]
        omega
    · have heq := h.closed_eq
      rw [List.countP_cons, List.countP_cons]
      omega

/-! ## What follows a group -/

theorem afterGroup_cons_of_opens (hopen : t.kind ∈ opens) :
    afterGroup opens closes depth (t :: ts) = afterGroup opens closes (depth + 1) ts := by
  rw [afterGroup, if_pos (by simpa using hopen)]

theorem afterGroup_cons_of_neither (hopen : t.kind ∉ opens) (hclose : t.kind ∉ closes) :
    afterGroup opens closes depth (t :: ts) = afterGroup opens closes depth ts := by
  rw [afterGroup, if_neg (by simpa using hopen), if_pos (by simpa using hclose)]

theorem afterGroup_zero_cons_of_closes (hopen : t.kind ∉ opens) (hclose : t.kind ∈ closes) :
    afterGroup opens closes 0 (t :: ts) = some ts := by
  rw [afterGroup, if_neg (by simpa using hopen), if_neg (by simpa using hclose), if_pos rfl]

theorem afterGroup_succ_cons_of_closes (hopen : t.kind ∉ opens) (hclose : t.kind ∈ closes) :
    afterGroup opens closes (depth + 1) (t :: ts) = afterGroup opens closes depth ts := by
  rw [afterGroup, if_neg (by simpa using hopen), if_neg (by simpa using hclose),
    if_neg (Nat.succ_ne_zero depth), Nat.add_sub_cancel]

/-- What is found by counting follows a closing bracket, and before that all brackets close that
have been opened since. -/
theorem afterGroup_eq_some_iff (hdisjoint : ∀ k ∈ opens, k ∉ closes) :
    afterGroup opens closes depth ts = some back ↔
      ∃ inner c, ts = inner ++ c :: back ∧ c.kind ∈ closes ∧
        BracketsClose opens closes depth (inner.map Token.kind) := by
  constructor
  · intro h
    fun_induction afterGroup opens closes depth ts with
    | case1 => simp at h
    | case2 depth t ts hopen ih =>
      obtain ⟨inner, c, rfl, hc, hinner⟩ := ih h
      have hclose := hdisjoint t.kind (by simpa using hopen)
      exact ⟨t :: inner, c, rfl, hc, bracketsClose_cons_iff.2 ⟨depth + 1, by simp_all, hinner⟩⟩
    | case3 depth t ts hopen hclose ih =>
      obtain ⟨inner, c, rfl, hc, hinner⟩ := ih h
      exact ⟨t :: inner, c, rfl, hc, bracketsClose_cons_iff.2 ⟨depth, by simp_all, hinner⟩⟩
    | case4 t ts hopen hclose =>
      obtain rfl := Option.some.inj h
      exact ⟨[], t, rfl, by simpa using hclose, bracketsClose_nil_iff.2 rfl⟩
    | case5 depth t ts hopen hclose hdepth ih =>
      obtain ⟨inner, c, rfl, hc, hinner⟩ := ih h
      refine ⟨t :: inner, c, rfl, hc, bracketsClose_cons_iff.2 ⟨depth - 1, ?_, hinner⟩⟩
      simp_all
      omega
  · rintro ⟨inner, c, rfl, hc, hinner⟩
    induction inner generalizing depth with
    | nil =>
      obtain rfl := bracketsClose_nil_iff.1 hinner
      exact afterGroup_zero_cons_of_closes (fun hopen => hdisjoint _ hopen hc) hc
    | cons t inner ih =>
      obtain ⟨outer, hdepth, hinner⟩ := bracketsClose_cons_iff.1 hinner
      rw [List.cons_append, ← ih hinner]
      by_cases hopen : t.kind ∈ opens
      · have hclose := hdisjoint _ hopen
        obtain rfl : outer = depth + 1 := by simp_all
        exact afterGroup_cons_of_opens hopen
      by_cases hclose : t.kind ∈ closes
      · obtain rfl : depth = outer + 1 := by simp_all
        exact afterGroup_succ_cons_of_closes hopen hclose
      · obtain rfl : outer = depth := by simp_all
        exact afterGroup_cons_of_neither hopen hclose

/-- A group lies between the two tokens that open and close it. -/
theorem closesGroup_iff_split :
    ClosesGroup opens closes (front ++ t :: ts) front.length j ↔
      t.kind ∈ opens ∧ ∃ inner c back, ts = inner ++ c :: back ∧
        j = front.length + 1 + inner.length ∧ c.kind ∈ closes ∧
        BracketsClose opens closes 0 (inner.map Token.kind) := by
  have hplace (n : Nat) : (front ++ t :: ts)[front.length + 1 + n]? = ts[n]? := by
    rw [Nat.add_assoc, List.getElem?_append_right (Nat.le_add_right _ _), Nat.add_sub_cancel_left,
      Nat.add_comm, List.getElem?_cons_succ]
  have hinner (n : Nat) :
      ((front ++ t :: ts).take (front.length + 1 + n)).drop (front.length + 1) = ts.take n := by
    rw [List.append_cons, List.drop_take, Nat.add_sub_cancel_left, List.drop_left' (by simp)]
  constructor
  · intro h
    obtain ⟨n, rfl⟩ := Nat.exists_eq_add_of_le (Nat.succ_le_of_lt h.lt)
    have hopen : t.kind ∈ opens := by simpa using h.opener
    obtain ⟨c, hc, hclose⟩ := h.closer
    have hclosed := h.inner
    rw [Nat.succ_eq_add_one, hplace, Option.mem_def, List.getElem?_eq_some_iff] at hc
    rw [Nat.succ_eq_add_one, hinner] at hclosed
    obtain ⟨hn, rfl⟩ := hc
    refine ⟨hopen, ts.take n, ts[n], ts.drop (n + 1), ?_, ?_, hclose, hclosed⟩
    · rw [List.getElem_cons_drop, List.take_append_drop]
    · rw [List.length_take, Nat.min_eq_left (Nat.le_of_lt hn)]
  · rintro ⟨hopen, inner, c, back, rfl, rfl, hclose, hclosed⟩
    refine ⟨by omega, ⟨t, by simp, hopen⟩, ⟨c, ?_, hclose⟩, ?_⟩
    · rw [hplace]
      simp
    · rwa [hinner, List.take_left]

/-- The group that a token opens is closed before certain kinds if counting finds one of these after
it. -/
theorem exists_closesGroup_iff (hdisjoint : ∀ k ∈ opens, k ∉ closes) :
    (∃ j, ClosesGroup opens closes (front ++ t :: ts) front.length j ∧
        ∃ u ∈ (front ++ t :: ts)[j + 1]?, u.kind ∈ follows) ↔
      t.kind ∈ opens ∧
        ∃ back, afterGroup opens closes 0 ts = some back ∧ ∃ u ∈ back.head?, u.kind ∈ follows := by
  have hnext (inner back : List Token) (c : Token) :
      (front ++ t :: (inner ++ c :: back))[front.length + 1 + inner.length + 1]? = back.head? := by
    have hsplit : front ++ t :: (inner ++ c :: back) = (front ++ t :: inner ++ [c]) ++ back := by
      simp
    rw [hsplit, List.getElem?_append_right (by simp; omega), List.head?_eq_getElem?]
    congr 1
    simp
    omega
  simp only [closesGroup_iff_split, afterGroup_eq_some_iff hdisjoint]
  constructor
  · rintro ⟨j, ⟨hopen, inner, c, back, rfl, rfl, hclose, hclosed⟩, u, hu, hfollow⟩
    rw [hnext] at hu
    exact ⟨hopen, back, ⟨inner, c, rfl, hclose, hclosed⟩, u, hu, hfollow⟩
  · rintro ⟨hopen, back, ⟨inner, c, rfl, hclose, hclosed⟩, u, hu, hfollow⟩
    refine ⟨_, ⟨hopen, inner, c, back, rfl, rfl, hclose, hclosed⟩, u, ?_, hfollow⟩
    rwa [hnext]

end ScriptReader
