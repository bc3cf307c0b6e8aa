import ScriptReader.Stage.Groups

/-!
# What marking groups does to a stream

A stage that marks bracketed groups withholds tokens and remembers places among them, but all that
comes of it is that some marks are put in.  Each stands before a token that opens a group.

## Main Definitions

* `Marked` — a list of tokens with marks put before some tokens of certain kinds
* `Withheld.OnlyInGroups` — nothing is withheld outside of groups
* `Withheld.OpenedBy` — groups were opened, and marks are due, at tokens of certain kinds

## Main Statements

* `Stage.marked_step_markGroups` — what is let out with a token
* `Stage.marked_markGroups` — what is let out in all

## Design Notes

`Marked` knows nothing of groups or of what is withheld.  What a property of tokens, or of tokens
and their neighbours, has to do with marks can be shown by induction on it.
-/

namespace ScriptReader

/-- Marks of kind `m` have been put before some of the tokens that are of the given kinds. -/
inductive Marked (m : TokenKind) (opens : List TokenKind) : List Token → List Token → Prop
  | nil : Marked m opens [] []
  /-- A token without a mark. -/
  | plain {ts us : List Token} (t : Token) (rest : Marked m opens ts us) :
      Marked m opens (t :: ts) (t :: us)
  /-- A token with a mark before it. -/
  | marked {ts us : List Token} (t : Token) (kind_mem : t.kind ∈ opens)
      (rest : Marked m opens ts us) : Marked m opens (t :: ts) (.mark m t.span.start :: t :: us)

variable {m : TokenKind} {opens : List TokenKind} {ts us vs ws : List Token} {t : Token}

namespace Marked

theorem append (h : Marked m opens ts us) (h' : Marked m opens vs ws) :
    Marked m opens (ts ++ vs) (us ++ ws) := by
  induction h with
  | nil => exact h'
  | plain t rest ih => exact .plain t ih
  | marked t kind_mem rest ih => exact .marked t kind_mem ih

/-- What is said of all tokens is said of all tokens with marks among them, if it is said of
marks. -/
theorem forall_mem {p : Token → Prop} (h : Marked m opens ts us) (hmark : ∀ a, p (.mark m a))
    (hts : ∀ t ∈ ts, p t) : ∀ u ∈ us, p u := by
  induction h with
  | nil => exact hts
  | plain t rest ih =>
    obtain ⟨ht, hts⟩ := List.forall_mem_cons.1 hts
    exact List.forall_mem_cons.2 ⟨ht, ih hts⟩
  | marked t kind_mem rest ih =>
    obtain ⟨ht, hts⟩ := List.forall_mem_cons.1 hts
    exact List.forall_mem_cons.2 ⟨hmark _, List.forall_mem_cons.2 ⟨ht, ih hts⟩⟩

end Marked

/-! ## Withheld tokens -/

/-- One of the given kinds is at a place of a list. -/
def OpensAt (opens : List TokenKind) (ts : List Token) (place : Nat) : Prop :=
  ∃ t, ts[place]? = some t ∧ t.kind ∈ opens

theorem OpensAt.append {place : Nat} (h : OpensAt opens ts place) (us : List Token) :
    OpensAt opens (ts ++ us) place := by
  obtain ⟨t, ht, hkind⟩ := h
  refine ⟨t, ?_, hkind⟩
  rw [List.getElem?_append_left (List.getElem?_eq_some_iff.1 ht).1, ht]

namespace Withheld

/-- Outside of bracketed groups nothing is withheld. -/
def OnlyInGroups {δ : Type} (w : Withheld δ) : Prop := w.isOpen = false → w.tokens.toList = []

/-- Groups were opened by tokens of the given kinds, and marks are due before such tokens only. -/
structure OpenedBy (opens : List TokenKind) (w : Withheld Bool) : Prop where
  /-- Groups were opened by tokens of the given kinds. -/
  groups : ∀ g ∈ w.groups, OpensAt opens w.tokens.toList g.1
  /-- Marks are due before such tokens. -/
  marks : ∀ p ∈ w.marks, OpensAt opens w.tokens.toList p

variable {w : Withheld Bool}

namespace OpenedBy

theorem empty : OpenedBy opens empty :=
  ⟨fun _ hg => absurd hg List.not_mem_nil, fun _ hp => absurd hp List.not_mem_nil⟩

theorem hold (h : w.OpenedBy opens) (t : Token) : (w.hold t).OpenedBy opens where
  groups g hg := by
    show OpensAt opens (w.tokens.push t).toList g.1
    rw [Array.toList_push]
    exact (h.groups g hg).append [t]
  marks p hp := by
    show OpensAt opens (w.tokens.push t).toList p
    rw [Array.toList_push]
    exact (h.marks p hp).append [t]

theorem openGroup (h : w.OpenedBy opens) (datum : Bool) (ht : t.kind ∈ opens) :
    ((w.openGroup datum).hold t).OpenedBy opens where
  groups g hg := by
    rcases List.mem_cons.1 hg with rfl | hmem
    · refine ⟨t, ?_, ht⟩
      show (w.tokens.push t).toList[w.tokens.size]? = some t
      simp
    · exact (h.hold t).groups g hmem
  marks := (h.hold t).marks

theorem closeGroup (h : w.OpenedBy opens) : w.closeGroup.2.OpenedBy opens where
  groups g hg := h.groups g (List.mem_of_mem_tail hg)
  marks := h.marks

theorem mark (h : w.OpenedBy opens) {place : Nat} (hplace : OpensAt opens w.tokens.toList place) :
    (w.mark place).OpenedBy opens where
  groups := h.groups
  marks := List.forall_mem_cons.2 ⟨hplace, h.marks⟩

end OpenedBy

theorem withMarks_cons (marks : List Nat) (place : Nat) (t : Token) (ts : List Token) :
    withMarks m marks place (t :: ts) =
      (if marks.contains place then [.mark m t.span.start] else []) ++
        t :: withMarks m marks (place + 1) ts := by
  rw [withMarks]
  split <;> rfl

theorem marked_withMarks {marks : List Nat} (place : Nat)
    (hmarks : ∀ i t, place + i ∈ marks → ts[i]? = some t → t.kind ∈ opens) :
    Marked m opens ts (withMarks m marks place ts) := by
  induction ts generalizing place with
  | nil => exact .nil
  | cons t ts ih =>
    have hrest := ih (place + 1) fun i v hmem hv =>
      hmarks (i + 1) v (by rwa [Nat.add_comm i 1, ← Nat.add_assoc]) (by simpa using hv)
    rw [withMarks_cons]
    split
    case isTrue hdue => exact .marked t (hmarks 0 t (by simpa using hdue) rfl) hrest
    case isFalse => exact .plain t hrest

theorem marked_release (h : w.OpenedBy opens) : Marked m opens w.tokens.toList (w.release m).1 := by
  refine marked_withMarks 0 ?_
  intro i t hmem ht
  rw [Nat.zero_add] at hmem
  obtain ⟨t', ht', hkind⟩ := h.marks i hmem
  rw [ht', Option.some_inj] at ht
  rwa [← ht]

end Withheld

/-! ## Stages -/

namespace Stage

variable {rule : GroupRule} {w : Withheld Bool}

/-- Closing a group lets out all withheld tokens or none. -/
theorem marked_afterClose (hw : w.OpenedBy rule.opens) :
    ∃ vs, w.tokens.toList = vs ++ (rule.afterClose w).1.tokens.toList ∧
      Marked rule.mark rule.opens vs (rule.afterClose w).2 ∧
      (rule.afterClose w).1.OpenedBy rule.opens ∧ (rule.afterClose w).1.OnlyInGroups := by
  unfold GroupRule.afterClose
  split
  case isTrue hopen => exact ⟨[], rfl, .nil, hw, fun hclosed => by simp [hopen] at hclosed⟩
  case isFalse hclosed =>
    have hgroups : w.groups = [] := by simpa [Withheld.isOpen] using hclosed
    refine ⟨w.tokens.toList, (List.append_nil _).symm, Withheld.marked_release hw, ?_, fun _ => rfl⟩
    rw [Withheld.release, hgroups]
    exact .empty

/-- What is let out with a token are, with marks among them, the tokens that were withheld before
and are not withheld afterwards. -/
theorem marked_step_markGroups (name : String) (hw : w.OpenedBy rule.opens) (honly : w.OnlyInGroups)
    (t : Token) (h : History) (next : Option TokenKind) :
    ∃ vs, w.tokens.toList ++ [t] =
        vs ++ (((markGroups name rule).step w t h).given next).1.tokens.toList ∧
      Marked rule.mark rule.opens vs (((markGroups name rule).step w t h).given next).2 ∧
      (((markGroups name rule).step w t h).given next).1.OpenedBy rule.opens ∧
      (((markGroups name rule).step w t h).given next).1.OnlyInGroups := by
  have hheld : (w.hold t).tokens.toList = w.tokens.toList ++ [t] := Array.toList_push ..
  simp only [markGroups]
  by_cases hopens : rule.opens.contains t.kind
  · rw [if_pos hopens]
    refine ⟨[], hheld.symm, .nil, hw.openGroup _ (by simpa using hopens), ?_⟩
    intro hclosed
    simp [Ruling.given, Withheld.isOpen, Withheld.hold, Withheld.openGroup] at hclosed
  rw [if_neg hopens]
  by_cases hclosed : !w.isOpen
  · rw [if_pos hclosed]
    have hnone : w.tokens.toList = [] := honly (by simpa using hclosed)
    refine ⟨[t], ?_, .plain t .nil, hw, honly⟩
    simp only [Ruling.given, hnone, List.append_nil, List.nil_append]
  rw [if_neg hclosed]
  by_cases hcloses : rule.closes.contains t.kind
  · rw [if_pos hcloses, ← hheld]
    -- Whether a mark becomes due changes only where marks are put.
    have hrest := (hw.hold t).closeGroup
    have hplace : ∀ g, (w.hold t).groups.head? = some g →
        OpensAt rule.opens (w.hold t).tokens.toList g.1 :=
      fun g hg => (hw.hold t).groups g (List.mem_of_head? hg)
    simp only [Withheld.closeGroup] at hrest ⊢
    rcases hgroup : (w.hold t).groups.head? with _ | ⟨place, _ | _⟩
    · exact marked_afterClose hrest
    · exact marked_afterClose hrest
    · simp only [Ruling.given]
      split
      case isTrue => exact marked_afterClose (hrest.mark (hplace _ hgroup))
      case isFalse => exact marked_afterClose hrest
  · rw [if_neg hcloses]
    refine ⟨[], hheld.symm, .nil, hw.hold t, ?_⟩
    intro hopen
    exact absurd hopen (by simpa [Ruling.given, Withheld.isOpen, Withheld.hold] using hclosed)

/-- Marking groups does nothing but put in marks. -/
theorem marked_markGroups (name : String) (rule : GroupRule) (ts : List Token) :
    Marked rule.mark rule.opens ts ((markGroups name rule).apply ts) := by
  -- What is let out from now on is made of the withheld tokens and of those still to come.
  have run : ∀ (ts : List Token) (w : Withheld Bool) (h : History), w.OpenedBy rule.opens →
      w.OnlyInGroups → Marked rule.mark rule.opens (w.tokens.toList ++ ts)
        ((markGroups name rule).applyFrom w h ts) := by
    intro ts
    induction ts with
    | nil =>
      intro w h hw _
      rw [List.append_nil]
      have hlast : ({ w with groups := [] } : Withheld Bool).OpenedBy rule.opens :=
        ⟨fun _ hg => absurd hg List.not_mem_nil, hw.marks⟩
      have hall := Withheld.marked_release (m := rule.mark) hlast
      exact hall
    | cons t ts ih =>
      intro w h hw honly
      obtain ⟨vs, hsplit, hout, hw', honly'⟩ :=
        marked_step_markGroups name hw honly t (h.push t) (ts.head?.map Token.kind)
      rw [List.append_cons, hsplit, List.append_assoc]
      exact hout.append (ih _ _ hw' honly')
  exact run ts .empty .empty .empty fun _ => rfl

end Stage

end ScriptReader
