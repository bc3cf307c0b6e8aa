import ScriptReader.Proofs.Stage.Kept
import ScriptReader.Proofs.Token.Groups

/-!
# Which groups are marked

A stage that marks groups remembers the places of brackets in a buffer that it empties again and
again.  What it makes of a list can be told without any of this: a mark stands before each bracket
that may open a marked group and whose group is closed before a token of the right kind, and there
are no other marks.

## Main Definitions

* `GroupRule.insertMarks` — a list of tokens with its marks, each decided by what is around it
* `GroupRule.MarksAt` — the same for a place, without counting
* `GroupRule.pending` — the places of open groups that what is still to come will have marked
* `GroupRule.IsApart` — the marks of a rule do not affect which groups it marks
* `Stage.OpensParameters`, `Stage.OpensPattern` — the token at a place opens a list of parameters, a
  pattern

## Main Statements

* `Stage.applyFrom_markGroups` — what is let out from any state on
* `Stage.apply_markGroups` — a stage that marks groups does nothing but insert marks
* `GroupRule.insertMarks_eq_flatMap` — which places are marked can be told from the whole list
* `GroupRule.IsApart.insertMarks_insertMarks` — marks are put in once
* `Stage.functionLiteral_eq_flatMap` — lists of parameters are marked, and nothing else is
* `Stage.destructuring_eq_flatMap` — patterns are marked, and nothing else is

## Design Notes

What will become of the groups that are open is decided by the tokens still to come, the innermost
group first.  A state is therefore looked at together with these, and the marks that are due already
are taken together with those that will be.
-/

namespace ScriptReader

namespace GroupRule

variable {rule : GroupRule} {depth : Nat} {t : Token} {ts : List Token}

/-- Whether the innermost of the groups that are open is closed in `ts` and what follows makes it
marked.  Of the groups that have been opened since, `depth` are still open. -/
def isFollowed (rule : GroupRule) (depth : Nat) (ts : List Token) : Bool :=
  (afterGroup rule.opens rule.closes depth ts).any fun back =>
    (back.head?.map Token.kind).any rule.follows.contains

/-- Whether there is a mark before the token `t`, with a token of kind `before` ahead of it and the
tokens `ts` behind it. -/
def isDue (rule : GroupRule) (before : Option TokenKind) (t : Token) (ts : List Token) : Bool :=
  rule.opens.contains t.kind && rule.eligible before && rule.isFollowed 0 ts

/-- The tokens with their marks, with a token of kind `before` ahead of them. -/
def insertMarks (rule : GroupRule) (before : Option TokenKind) : List Token → List Token
  | [] => []
  | t :: ts =>
    (if rule.isDue before t ts then [.mark rule.mark t.span.start] else []) ++
      t :: rule.insertMarks (some t.kind) ts

/-- The places of the groups that will be marked if `ts` is still to come.  Of the groups that have
been opened since the first of them, `depth` are still open. -/
def pending (rule : GroupRule) (ts : List Token) (depth : Nat) : List (Nat × Bool) → List Nat
  | [] => []
  | (place, eligible) :: groups =>
    (if eligible && rule.isFollowed depth ts then [place] else []) ++
      rule.pending ts (depth + 1) groups

/-! ### One token further on -/

theorem isFollowed_cons_of_opens (hopen : t.kind ∈ rule.opens) :
    rule.isFollowed depth (t :: ts) = rule.isFollowed (depth + 1) ts := by
  rw [isFollowed, isFollowed, afterGroup_cons_of_opens hopen]

theorem isFollowed_cons_of_neither (hopen : t.kind ∉ rule.opens) (hclose : t.kind ∉ rule.closes) :
    rule.isFollowed depth (t :: ts) = rule.isFollowed depth ts := by
  rw [isFollowed, isFollowed, afterGroup_cons_of_neither hopen hclose]

/-- Where the group is closed, the next token decides. -/
theorem isFollowed_zero_cons_of_closes (hopen : t.kind ∉ rule.opens)
    (hclose : t.kind ∈ rule.closes) :
    rule.isFollowed 0 (t :: ts) = (ts.head?.map Token.kind).any rule.follows.contains := by
  rw [isFollowed, afterGroup_zero_cons_of_closes hopen hclose]
  rfl

theorem isFollowed_succ_cons_of_closes (hopen : t.kind ∉ rule.opens)
    (hclose : t.kind ∈ rule.closes) :
    rule.isFollowed (depth + 1) (t :: ts) = rule.isFollowed depth ts := by
  rw [isFollowed, isFollowed, afterGroup_succ_cons_of_closes hopen hclose]

theorem mem_groups_of_mem_pending {groups : List (Nat × Bool)} {place : Nat}
    (h : place ∈ rule.pending ts depth groups) : ∃ g ∈ groups, g.1 = place := by
  induction groups generalizing depth with
  | nil => simp [pending] at h
  | cons g groups ih =>
    rw [pending, List.mem_append] at h
    rcases h with hhere | hlater
    · have hplace : place = g.1 := by
        split at hhere
        case isTrue => exact List.mem_singleton.1 hhere
        case isFalse => simp at hhere
      exact ⟨g, List.mem_cons_self, hplace.symm⟩
    · obtain ⟨g', hmem, hplace⟩ := ih hlater
      exact ⟨g', List.mem_cons_of_mem _ hmem, hplace⟩

/-- A group that is not closed is not marked. -/
theorem pending_nil (groups : List (Nat × Bool)) : rule.pending [] depth groups = [] := by
  induction groups generalizing depth with
  | nil => rfl
  | cons g groups ih =>
    rw [pending, ih, List.append_nil, if_neg]
    simp [isFollowed, afterGroup]

/-- A token that opens a group puts one more inside those that are open. -/
theorem pending_cons_of_opens (hopen : t.kind ∈ rule.opens) (groups : List (Nat × Bool)) :
    rule.pending (t :: ts) depth groups = rule.pending ts (depth + 1) groups := by
  induction groups generalizing depth with
  | nil => rfl
  | cons g groups ih =>
    rw [pending, pending, ih, isFollowed_cons_of_opens hopen]

/-- A token that closes a group takes one away. -/
theorem pending_succ_cons_of_closes (hopen : t.kind ∉ rule.opens) (hclose : t.kind ∈ rule.closes)
    (groups : List (Nat × Bool)) :
    rule.pending (t :: ts) (depth + 1) groups = rule.pending ts depth groups := by
  induction groups generalizing depth with
  | nil => rfl
  | cons g groups ih =>
    rw [pending, pending, ih, isFollowed_succ_cons_of_closes hopen hclose]

theorem pending_cons_of_neither (hopen : t.kind ∉ rule.opens) (hclose : t.kind ∉ rule.closes)
    (groups : List (Nat × Bool)) :
    rule.pending (t :: ts) depth groups = rule.pending ts depth groups := by
  induction groups generalizing depth with
  | nil => rfl
  | cons g groups ih =>
    rw [pending, pending, ih, isFollowed_cons_of_neither hopen hclose]

/-! ### Marks before and after a place -/

theorem insertMarks_cons_of_not_opens {before : Option TokenKind} (hopen : t.kind ∉ rule.opens) :
    rule.insertMarks before (t :: ts) = t :: rule.insertMarks (some t.kind) ts := by
  rw [insertMarks, if_neg (by simp [isDue, hopen]), List.nil_append]

/-- A list is marked up to a place and from there on.  But for the marks the tokens before that
place are the same, and so is the last of them. -/
theorem exists_insertMarks_append {view : Token → Option Token}
    (hmark : ∀ a, view (.mark rule.mark a) = none) (before : Option TokenKind)
    (ts us : List Token) :
    ∃ vs, rule.insertMarks before (ts ++ us) =
        vs ++ rule.insertMarks ((ts.getLast?.map Token.kind).or before) us ∧
      vs.filterMap view = ts.filterMap view ∧ vs.getLast? = ts.getLast? := by
  induction ts generalizing before with
  | nil => exact ⟨[], rfl, rfl, rfl⟩
  | cons t ts ih =>
    obtain ⟨vs, hout, hview, hlast⟩ := ih (some t.kind)
    have hnone : (if rule.isDue before t (ts ++ us) then [.mark rule.mark t.span.start]
        else ([] : List Token)).filterMap view = [] := by
      split
      case isTrue => rw [List.filterMap_cons_none (hmark _), List.filterMap_nil]
      case isFalse => rfl
    refine ⟨(if rule.isDue before t (ts ++ us) then [.mark rule.mark t.span.start] else []) ++
      t :: vs, ?_, ?_, ?_⟩
    · rw [List.cons_append, insertMarks, hout, List.append_assoc, List.getLast?_cons]
      cases ts.getLast? with
      | none => rfl
      | some u => rfl
    · rw [List.filterMap_append, hnone, List.nil_append, List.filterMap_cons, List.filterMap_cons,
        hview]
    · rw [List.getLast?_append, List.getLast?_cons, List.getLast?_cons, hlast, Option.some_or]

/-! ### Marking twice -/

/-- Marks of the rule take no part in its groups, and nothing that makes a group marked opens one
itself. -/
structure IsApart (rule : GroupRule) : Prop where
  /-- A mark opens no group, ... -/
  mark_not_opens : rule.mark ∉ rule.opens
  /-- ... closes none, ... -/
  mark_not_closes : rule.mark ∉ rule.closes
  /-- ... does not make a group marked, ... -/
  mark_not_follows : rule.mark ∉ rule.follows
  /-- ... and keeps one that it stands before from being marked again. -/
  not_eligible : rule.eligible (some rule.mark) = false
  /-- What makes a group marked has no mark before it. -/
  follows_not_opens : ∀ k ∈ rule.follows, k ∉ rule.opens

/-- Marks do not come between a group and what makes it marked. -/
theorem IsApart.any_head?_insertMarks (h : rule.IsApart) (before : Option TokenKind)
    (ts : List Token) :
    ((rule.insertMarks before ts).head?.map Token.kind).any rule.follows.contains =
      (ts.head?.map Token.kind).any rule.follows.contains := by
  cases ts with
  | nil => rfl
  | cons t ts =>
    rw [insertMarks]
    split
    case isFalse => rfl
    case isTrue hdue =>
      have hopen : t.kind ∈ rule.opens := by simp_all [isDue]
      have hfollow : t.kind ∉ rule.follows := fun hmem => h.follows_not_opens _ hmem hopen
      simp [Token.mark, h.mark_not_follows, hfollow]

/-- Whether a group is followed by what makes it marked does not depend on marks. -/
theorem IsApart.isFollowed_insertMarks (h : rule.IsApart) (before : Option TokenKind)
    (ts : List Token) :
    rule.isFollowed depth (rule.insertMarks before ts) = rule.isFollowed depth ts := by
  induction ts generalizing before depth with
  | nil => rfl
  | cons t ts ih =>
    have hskip : rule.isFollowed depth (rule.insertMarks before (t :: ts)) =
        rule.isFollowed depth (t :: rule.insertMarks (some t.kind) ts) := by
      rw [insertMarks]
      split
      case isFalse => rfl
      case isTrue => exact isFollowed_cons_of_neither h.mark_not_opens h.mark_not_closes
    rw [hskip]
    by_cases hopen : t.kind ∈ rule.opens
    · rw [isFollowed_cons_of_opens hopen, isFollowed_cons_of_opens hopen, ih]
    by_cases hclose : t.kind ∈ rule.closes
    · cases depth with
      | zero =>
        rw [isFollowed_zero_cons_of_closes hopen hclose,
          isFollowed_zero_cons_of_closes hopen hclose, h.any_head?_insertMarks]
      | succ depth =>
        rw [isFollowed_succ_cons_of_closes hopen hclose,
          isFollowed_succ_cons_of_closes hopen hclose, ih]
    · rw [isFollowed_cons_of_neither hopen hclose, isFollowed_cons_of_neither hopen hclose, ih]

/-- A list that has its marks gets no more of them. -/
theorem IsApart.insertMarks_insertMarks (h : rule.IsApart) (before : Option TokenKind)
    (ts : List Token) :
    rule.insertMarks before (rule.insertMarks before ts) = rule.insertMarks before ts := by
  induction ts generalizing before with
  | nil => rfl
  | cons t ts ih =>
    have hdue : rule.isDue before t (rule.insertMarks (some t.kind) ts) =
        rule.isDue before t ts := by
      rw [isDue, isDue, h.isFollowed_insertMarks]
    rw [insertMarks]
    split
    case isFalse hplain =>
      rw [List.nil_append, insertMarks, hdue, if_neg hplain, ih, List.nil_append]
    case isTrue =>
      have hagain (us : List Token) : rule.isDue (some rule.mark) t us = false := by
        rw [isDue, h.not_eligible, Bool.and_false, Bool.false_and]
      rw [List.singleton_append, insertMarks_cons_of_not_opens h.mark_not_opens]
      show _ :: rule.insertMarks (some rule.mark) (t :: rule.insertMarks (some t.kind) ts) = _
      rw [insertMarks, hagain, if_neg Bool.false_ne_true, ih, List.nil_append]

/-! ### Places that are marked -/

/-- A mark stands before the token at place `i`: the token before it lets it open a marked group,
and one of the right kind follows the group. -/
def MarksAt (rule : GroupRule) (ts : List Token) (i : Nat) : Prop :=
  rule.eligible ((ts.take i).getLast?.map Token.kind) ∧
    ∃ j < ts.length, ClosesGroup rule.opens rule.closes ts i j ∧
      ∃ u ∈ ts[j + 1]?, u.kind ∈ rule.follows

instance (rule : GroupRule) (ts : List Token) (i : Nat) : Decidable (rule.MarksAt ts i) :=
  inferInstanceAs (Decidable (_ ∧ _))

variable {front : List Token}

/-- Counting tells the places that are marked. -/
theorem isDue_iff_marksAt (hdisjoint : ∀ k ∈ rule.opens, k ∉ rule.closes) :
    rule.isDue (front.getLast?.map Token.kind) t ts ↔
      rule.MarksAt (front ++ t :: ts) front.length := by
  have hfollowed : rule.isFollowed 0 ts ↔ ∃ back,
      afterGroup rule.opens rule.closes 0 ts = some back ∧
        ∃ u ∈ back.head?, u.kind ∈ rule.follows := by
    simp [isFollowed, Option.any_eq_true]
  have hlength (j : Nat)
      (h : ClosesGroup rule.opens rule.closes (front ++ t :: ts) front.length j) :
      j < (front ++ t :: ts).length := by
    obtain ⟨c, hc, -⟩ := h.closer
    exact (List.getElem?_eq_some_iff.1 hc).1
  rw [isDue, MarksAt, List.take_left, Bool.and_right_comm, Bool.and_eq_true, Bool.and_eq_true,
    hfollowed, List.contains_iff_mem, ← exists_closesGroup_iff hdisjoint, and_comm]
  refine and_congr_right fun _ => exists_congr fun j => ?_
  exact ⟨fun h => ⟨hlength j h.1, h⟩, And.right⟩

/-- The tokens with their marks, place by place. -/
theorem insertMarks_eq_flatMap (hdisjoint : ∀ k ∈ rule.opens, k ∉ rule.closes)
    (front ts : List Token) :
    rule.insertMarks (front.getLast?.map Token.kind) ts =
      (ts.zipIdx front.length).flatMap fun (t, i) =>
        if rule.MarksAt (front ++ ts) i then [.mark rule.mark t.span.start, t] else [t] := by
  induction ts generalizing front with
  | nil => rfl
  | cons t ts ih =>
    have hrest := ih (front ++ [t])
    rw [List.getLast?_concat, List.length_append, List.append_assoc] at hrest
    rw [insertMarks, List.zipIdx_cons, List.flatMap_cons]
    simp only [isDue_iff_marksAt hdisjoint]
    split
    · exact congrArg (_ :: t :: ·) hrest
    · exact congrArg (t :: ·) hrest

end GroupRule

/-! ## Marks among withheld tokens -/

namespace Withheld

variable {m : TokenKind} {ts us : List Token} {marks marks' : List Nat} {place : Nat}
  {w : Withheld Bool} {rule : GroupRule}

theorem withMarks_append (marks : List Nat) (place : Nat) (ts us : List Token) :
    withMarks m marks place (ts ++ us) =
      withMarks m marks place ts ++ withMarks m marks (place + ts.length) us := by
  induction ts generalizing place with
  | nil => rfl
  | cons t ts ih =>
    rw [List.cons_append, withMarks_cons, withMarks_cons, ih, List.append_assoc, List.cons_append,
      List.length_cons, Nat.add_comm ts.length 1, Nat.add_assoc]

/-- Only the places of the tokens at hand matter. -/
theorem withMarks_congr (h : ∀ i < ts.length, place + i ∈ marks ↔ place + i ∈ marks') :
    withMarks m marks place ts = withMarks m marks' place ts := by
  induction ts generalizing place with
  | nil => rfl
  | cons t ts ih =>
    have hhere : place ∈ marks ↔ place ∈ marks' := h 0 (Nat.zero_lt_succ _)
    have hrest : withMarks m marks (place + 1) ts = withMarks m marks' (place + 1) ts :=
      ih fun i hi => by
        have hlater := h (i + 1) (Nat.succ_lt_succ hi)
        rwa [Nat.add_comm i 1, ← Nat.add_assoc] at hlater
    rw [withMarks_cons, withMarks_cons, hrest]
    simp only [List.contains_iff_mem, hhere]

/-- The marks that are due and those that will be if `ts` is still to come. -/
def due (rule : GroupRule) (ts : List Token) (w : Withheld Bool) : List Nat :=
  w.marks ++ rule.pending ts 0 w.groups

theorem OpensAt.lt_length {opens : List TokenKind} (h : OpensAt opens ts place) :
    place < ts.length := by
  obtain ⟨t, ht, -⟩ := h
  exact (List.getElem?_eq_some_iff.1 ht).1

/-- All of them are among the tokens that are withheld. -/
theorem OpenedBy.lt_of_mem_due (hw : w.OpenedBy rule.opens) (h : place ∈ due rule ts w) :
    place < w.tokens.toList.length := by
  rcases List.mem_append.1 h with hmark | hgroup
  · exact OpensAt.lt_length (hw.marks place hmark)
  · obtain ⟨g, hg, rfl⟩ := GroupRule.mem_groups_of_mem_pending hgroup
    exact OpensAt.lt_length (hw.groups g hg)

/-- A token is withheld without a mark. -/
theorem OpenedBy.withMarks_concat (hw : w.OpenedBy rule.opens) (t : Token) :
    withMarks m (due rule ts w) 0 (w.tokens.toList ++ [t]) =
      withMarks m (due rule ts w) 0 w.tokens.toList ++ [t] := by
  rw [withMarks_append, withMarks_cons, if_neg]
  · rfl
  · intro hmem
    rw [List.contains_iff_mem, Nat.zero_add] at hmem
    exact absurd (hw.lt_of_mem_due hmem) (Nat.lt_irrefl _)

end Withheld

/-! ## Stages -/

namespace Stage

open Withheld (due withMarks withMarks_append withMarks_congr withMarks_cons)

variable {rule : GroupRule} {w : Withheld Bool} {ts us : List Token} {t : Token}

/-- What is let out when a group is closed, and what will be let out of the tokens that are still
withheld, is what would have been let out of all of them. -/
theorem withMarks_afterClose (rule : GroupRule) (w : Withheld Bool) (ts : List Token) :
    (rule.afterClose w).2 ++ withMarks rule.mark (due rule ts (rule.afterClose w).1) 0
        (rule.afterClose w).1.tokens.toList =
      withMarks rule.mark (due rule ts w) 0 w.tokens.toList := by
  unfold GroupRule.afterClose
  split
  case isTrue => rfl
  case isFalse hclosed =>
    have hgroups : w.groups = [] := by simpa [Withheld.isOpen] using hclosed
    have hdue : due rule ts w = w.marks := by
      rw [due, hgroups, GroupRule.pending, List.append_nil]
    rw [hdue]
    exact List.append_nil _

/-- A token that opens no group is withheld without a mark of its own. -/
theorem withMarks_due_hold {w' : Withheld Bool} (hw : w.OpenedBy rule.opens)
    (htokens : w'.tokens = w.tokens.push t)
    (hdue : ∀ place, place ∈ due rule ts w' ↔ place ∈ due rule (t :: ts) w) :
    withMarks rule.mark (due rule ts w') 0 w'.tokens.toList =
      withMarks rule.mark (due rule (t :: ts) w) 0 w.tokens.toList ++ [t] := by
  rw [htokens, Array.toList_push, ← hw.withMarks_concat]
  exact withMarks_congr fun i _ => hdue (0 + i)

/-- The group that a token opens decides about a mark before the token. -/
theorem withMarks_due_openGroup (hw : w.OpenedBy rule.opens) (hopen : t.kind ∈ rule.opens)
    (eligible : Bool) (ts : List Token) :
    withMarks rule.mark (due rule ts ((w.openGroup eligible).hold t)) 0
        ((w.openGroup eligible).hold t).tokens.toList =
      withMarks rule.mark (due rule (t :: ts) w) 0 w.tokens.toList ++
        ((if eligible && rule.isFollowed 0 ts then [.mark rule.mark t.span.start] else []) ++
          [t]) := by
  have hdue (place : Nat) : place ∈ due rule ts ((w.openGroup eligible).hold t) ↔
      (place = w.tokens.toList.length ∧ eligible && rule.isFollowed 0 ts) ∨
        place ∈ due rule (t :: ts) w := by
    have hgroups : ((w.openGroup eligible).hold t).groups =
        (w.tokens.toList.length, eligible) :: w.groups := rfl
    have hmark : place ∈ (if eligible && rule.isFollowed 0 ts then [w.tokens.toList.length]
          else []) ↔ place = w.tokens.toList.length ∧ eligible && rule.isFollowed 0 ts := by
      split <;> simp_all
    rw [due, due, hgroups, GroupRule.pending, GroupRule.pending_cons_of_opens hopen,
      List.mem_append, List.mem_append, List.mem_append, hmark]
    exact or_left_comm
  have hnot : w.tokens.toList.length ∉ due rule (t :: ts) w :=
    fun hmem => absurd (hw.lt_of_mem_due hmem) (Nat.lt_irrefl _)
  have hlast : w.tokens.toList.length ∈ due rule ts ((w.openGroup eligible).hold t) ↔
      eligible && rule.isFollowed 0 ts :=
    (hdue _).trans ⟨fun hmem => hmem.elim And.right (absurd · hnot), fun hmem => .inl ⟨rfl, hmem⟩⟩
  have htokens : ((w.openGroup eligible).hold t).tokens.toList = w.tokens.toList ++ [t] :=
    Array.toList_push ..
  rw [htokens, withMarks_append, withMarks_cons, Nat.zero_add]
  congr 1
  · refine withMarks_congr fun i hi => ?_
    rw [Nat.zero_add, hdue]
    exact or_iff_right fun hmem => Nat.ne_of_lt hi hmem.1
  · simp only [List.contains_iff_mem, hlast]
    rfl

/-- Whether the innermost group is marked shows when it is closed. -/
theorem due_cons_of_closes {place : Nat} {eligible : Bool} {groups : List (Nat × Bool)}
    (ts : List Token) (hopen : t.kind ∉ rule.opens) (hclose : t.kind ∈ rule.closes)
    (hgroups : w.groups = (place, eligible) :: groups) :
    due rule (t :: ts) w = w.marks ++
      ((if eligible && (ts.head?.map Token.kind).any rule.follows.contains then [place] else []) ++
        rule.pending ts 0 groups) := by
  rw [due, hgroups, GroupRule.pending, GroupRule.isFollowed_zero_cons_of_closes hopen hclose,
    GroupRule.pending_succ_cons_of_closes hopen hclose]

/-- What is let out with a token, and what will be let out of the tokens withheld after it, is what
would have been let out of those withheld before it, then a mark if one is due, and the token. -/
theorem withMarks_step_markGroups (name : String) (hw : w.OpenedBy rule.opens)
    (honly : w.OnlyInGroups) (t : Token) (h : History) (ts : List Token)
    {r : Withheld Bool × List Token}
    (hr : ((markGroups name rule).step w t h).given (ts.head?.map Token.kind) = r) :
    r.2 ++ withMarks rule.mark (due rule ts r.1) 0 r.1.tokens.toList =
      withMarks rule.mark (due rule (t :: ts) w) 0 w.tokens.toList ++
        ((if rule.isDue (h.lookBack 1) t ts then [.mark rule.mark t.span.start] else []) ++
          [t]) := by
  subst hr
  simp only [markGroups]
  by_cases hopen : t.kind ∈ rule.opens
  · rw [if_pos (by simpa using hopen), GroupRule.isDue, List.contains_iff_mem.2 hopen,
      Bool.true_and]
    exact withMarks_due_openGroup hw hopen _ ts
  have hplain : rule.isDue (h.lookBack 1) t ts = false := by simp [GroupRule.isDue, hopen]
  rw [if_neg (by simpa using hopen), hplain]
  cases hgroups : w.groups with
  | nil =>
    have hnone : w.isOpen = false := by simp [Withheld.isOpen, hgroups]
    have hheld (us : List Token) : withMarks rule.mark (due rule us w) 0 w.tokens.toList = [] := by
      rw [honly hnone]
      rfl
    rw [hheld, hnone, Bool.not_false, if_pos rfl]
    simp only [Ruling.given]
    rw [hheld]
    rfl
  | cons g groups =>
    obtain ⟨place, eligible⟩ := g
    have hsome : w.isOpen = true := by simp [Withheld.isOpen, hgroups]
    rw [hsome, Bool.not_true, if_neg Bool.false_ne_true]
    by_cases hclose : t.kind ∈ rule.closes
    · have hclosed : (w.hold t).closeGroup =
          (some (place, eligible), { w.hold t with groups := groups }) := by
        simp [Withheld.closeGroup, Withheld.hold, hgroups]
      have hdue := due_cons_of_closes ts hopen hclose hgroups
      rw [if_pos (by simpa using hclose), hclosed]
      cases eligible with
      | false =>
        simp only [Ruling.given]
        rw [withMarks_afterClose]
        refine withMarks_due_hold hw rfl fun p => ?_
        rw [hdue]
        rfl
      | true =>
        simp only [Ruling.given]
        rw [withMarks_afterClose]
        split
        case isTrue hfollow =>
          refine withMarks_due_hold hw rfl fun p => ?_
          rw [hdue, Bool.true_and, if_pos hfollow]
          show p ∈ place :: w.marks ++ rule.pending ts 0 groups ↔ _
          simp only [List.mem_append, List.mem_cons, List.not_mem_nil, or_false, or_assoc,
            or_left_comm]
        case isFalse hfollow =>
          refine withMarks_due_hold hw rfl fun p => ?_
          rw [hdue, Bool.true_and, if_neg hfollow]
          rfl
    · rw [if_neg (by simpa using hclose)]
      refine withMarks_due_hold hw rfl fun p => ?_
      rw [due, due, GroupRule.pending_cons_of_neither hopen hclose]
      rfl

/-- From any state on, the tokens that are withheld are let out with the marks that are due or will
be, and those still to come with theirs. -/
theorem applyFrom_markGroups (name : String) (hw : w.OpenedBy rule.opens) (honly : w.OnlyInGroups)
    (h : History) (ts : List Token) :
    (markGroups name rule).applyFrom w h ts =
      withMarks rule.mark (due rule ts w) 0 w.tokens.toList ++
        rule.insertMarks (h.current.map Token.kind) ts := by
  induction ts generalizing w h with
  | nil =>
    rw [due, GroupRule.pending_nil, List.append_nil, GroupRule.insertMarks, List.append_nil]
    rfl
  | cons t ts ih =>
    obtain ⟨-, -, -, hw', honly'⟩ :=
      marked_step_markGroups name hw honly t (h.push t) (ts.head?.map Token.kind)
    rw [applyFrom_cons (markGroups name rule) w h t ts, ih hw' honly', ← List.append_assoc,
      withMarks_step_markGroups name hw honly t (h.push t) ts rfl, History.lookBack_one_push,
      GroupRule.insertMarks]
    simp

/-- A stage that marks groups does nothing but insert marks. -/
theorem apply_markGroups (name : String) (rule : GroupRule) (ts : List Token) :
    (markGroups name rule).apply ts = rule.insertMarks none ts :=
  applyFrom_markGroups name .empty (fun _ => rfl) .empty ts

/-- What a stage makes of a token depends on the places of the tokens alone. -/
theorem apply_markGroups_eq_flatMap (hdisjoint : ∀ k ∈ rule.opens, k ∉ rule.closes) (name : String)
    (ts : List Token) :
    (markGroups name rule).apply ts = ts.zipIdx.flatMap fun (t, i) =>
      if rule.MarksAt ts i then [.mark rule.mark t.span.start, t] else [t] :=
  (apply_markGroups name rule ts).trans (GroupRule.insertMarks_eq_flatMap hdisjoint [] ts)

/-! ### Lists of parameters -/

/-- The token at place `i` is an opening parenthesis, and an arrow or the body of a function follows
the closing parenthesis that belongs to it. -/
def OpensParameters (ts : List Token) (i : Nat) : Prop :=
  ∃ j < ts.length, ClosesGroup [.openParen] [.closeParen] ts i j ∧
    ∃ u ∈ ts[j + 1]?, u.kind ∈ [.fatArrow, .thinArrow, .star, .tilde, .tildeStar, .openBrace]

instance (ts : List Token) (i : Nat) : Decidable (OpensParameters ts i) :=
  inferInstanceAs (Decidable (∃ _ < _, _))

/-- Each list of parameters is marked once, where it begins; nothing else is marked, and nothing
else is done. -/
theorem functionLiteral_eq_flatMap (hts : ∀ t ∈ ts, t.kind ≠ .functionMark) :
    (functionLiteral.apply ts).filter (fun t => t.kind ≠ .functionMark) = ts ∧
      functionLiteral.apply ts = ts.zipIdx.flatMap fun (t, i) =>
        if OpensParameters ts i then [.mark .functionMark t.span.start, t] else [t] := by
  constructor
  · have hkeeps : functionLiteral.Keeps (· ≠ .functionMark) := keeps_markGroups rfl _
    exact (hkeeps ts).trans (List.filter_eq_self.2 fun t ht => decide_eq_true (hts t ht))
  · have hdisjoint : ∀ k ∈ GroupRule.parameters.opens, k ∉ GroupRule.parameters.closes := by decide
    -- Every parenthesis may open a list of parameters, whatever is before it.
    have hmarks (i : Nat) : GroupRule.parameters.MarksAt ts i ↔ OpensParameters ts i :=
      and_iff_right rfl
    rw [functionLiteral, apply_markGroups_eq_flatMap hdisjoint]
    simp only [hmarks]
    rfl

/-- A list of parameters within another, beside a group that is none, after one that is never opened
and before one that is never closed. -/
theorem functionLiteral_eq_flatMap_nested :
    let ts := [.closeParen, .openParen, .openParen, .closeParen, .fatArrow, .openParen, .closeParen,
      .comma, .closeParen, .openBrace, .openParen, .closeParen, .thinArrow, .openParen].zipIdx.map
        fun (k, a) => Token.mark k (.ofNat a)
    (∀ t ∈ ts, t.kind ≠ .functionMark) ∧
      (functionLiteral.apply ts).filter (fun t => t.kind ≠ .functionMark) = ts ∧
        functionLiteral.apply ts = ts.take 1 ++ .mark .functionMark 1 :: ts[1]! ::
          .mark .functionMark 2 :: (ts.take 10).drop 2 ++ .mark .functionMark 10 :: ts.drop 10 := by
  intro ts
  have hts : ∀ t ∈ ts, t.kind ≠ .functionMark := by decide
  obtain ⟨hkept, hmarks⟩ := functionLiteral_eq_flatMap hts
  refine ⟨hts, hkept, hmarks.trans ?_⟩
  decide

/-! ### Patterns -/

/-- The token at place `i` is an opening brace or bracket with nothing before it or a token that a
pattern may come after, and an assignment follows the closing brace or bracket that belongs to
it. -/
def OpensPattern (ts : List Token) (i : Nat) : Prop :=
  (∀ t ∈ (ts.take i).getLast?, t.kind ∈ [.defWord, .comma, .newline, .indent]) ∧
    ∃ j < ts.length, ClosesGroup [.openBrace, .openBracket] [.closeBrace, .closeBracket] ts i j ∧
      ∃ u ∈ ts[j + 1]?, u.kind ∈ [.equals, .define]

instance (ts : List Token) (i : Nat) : Decidable (OpensPattern ts i) :=
  inferInstanceAs (Decidable (_ ∧ ∃ _ < _, _))

theorem marksAt_patterns_iff {i : Nat} : GroupRule.patterns.MarksAt ts i ↔ OpensPattern ts i := by
  refine and_congr_left fun _ => ?_
  cases (ts.take i).getLast? <;> simp [GroupRule.patterns]

/-- Each pattern is marked once, where it begins; nothing else is marked, and nothing else is done.
A list whose patterns are marked is left as it is. -/
theorem destructuring_eq_flatMap (hts : ∀ t ∈ ts, t.kind ≠ .patternMark) :
    (destructuring.apply ts).filter (fun t => t.kind ≠ .patternMark) = ts ∧
      destructuring.apply ts = (ts.zipIdx.flatMap fun (t, i) =>
        if OpensPattern ts i then [.mark .patternMark t.span.start, t] else [t]) ∧
      destructuring.apply (destructuring.apply ts) = destructuring.apply ts := by
  refine ⟨?_, ?_, ?_⟩
  · have hkeeps : destructuring.Keeps (· ≠ .patternMark) := keeps_markGroups rfl _
    exact (hkeeps ts).trans (List.filter_eq_self.2 fun t ht => decide_eq_true (hts t ht))
  · have hdisjoint : ∀ k ∈ GroupRule.patterns.opens, k ∉ GroupRule.patterns.closes := by decide
    rw [destructuring, apply_markGroups_eq_flatMap hdisjoint]
    simp only [marksAt_patterns_iff]
    rfl
  · have hapart : GroupRule.patterns.IsApart := by constructor <;> decide
    rw [destructuring, apply_markGroups, apply_markGroups, hapart.insertMarks_insertMarks]

/-- A pattern within another, beside groups that are none since a word is before them or no
assignment behind them, after one that is never opened and before one that is never closed. -/
theorem destructuring_eq_flatMap_nested :
    let ts := [.openBracket, .identifier, .comma, .openBrace, .identifier, .closeBracket, .equals,
      .openBrace, .closeBrace, .closeBrace, .define, .closeBrace, .newline, .openBracket,
      .closeBracket, .newline, .openBrace, .equals].zipIdx.map
        fun (k, a) => Token.mark k (.ofNat a)
    (∀ t ∈ ts, t.kind ≠ .patternMark) ∧
      (destructuring.apply ts).filter (fun t => t.kind ≠ .patternMark) = ts ∧
        destructuring.apply ts = .mark .patternMark 0 :: ts.take 3 ++ .mark .patternMark 3 ::
          ts.drop 3 ∧
        destructuring.apply (destructuring.apply ts) = destructuring.apply ts := by
  intro ts
  have hts : ∀ t ∈ ts, t.kind ≠ .patternMark := by decide
  obtain ⟨hkept, hmarks, htwice⟩ := destructuring_eq_flatMap hts
  refine ⟨hts, hkept, hmarks.trans ?_, htwice⟩
  decide

end Stage

end ScriptReader
