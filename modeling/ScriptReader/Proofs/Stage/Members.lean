import Mathlib.Data.List.Forall2
import ScriptReader.Proofs.Stage.Kept
import ScriptReader.Proofs.Token.Members
import ScriptReader.Proofs.Token.Sites

/-!
# Stages and what members are called

The stages before that for members look at words too, but only in what `SameRole` says of them.  On
sequences of tokens that are alike they decide alike, and once members are named, nothing but the
texts of these names is left of the difference.

## Main Definitions

* `Likened` — the tokens read last on two sides, which may be twins
* `Stage.Overlooks` — a stage lets dots and words by, and looks back at words for their role only
* `Withheld.AlikeTo` — the same groups and marks among withheld tokens that are alike

## Main Statements

* `Stage.Overlooks.alike_apply`, `Stage.alike_markGroups` — sequences that are alike stay so
* `Stage.forall₂_memberName` — naming members leaves only their texts different

## Design Notes

A stage that withholds tokens puts marks among them later.  That no mark comes between a dot and the
word after it is because marks are due only where a bracket opens a group.
-/

namespace ScriptReader

variable {ts us : List Token} {t u : Token} {a b : Option Token} {k l : TokenKind}

/-! ## Looking back -/

/-- The tokens read last on two sides are the same or twins, or there is none on either. -/
def Likened (a b : Option Token) : Prop :=
  a = b ∨ ∃ t u, a = some t ∧ b = some u ∧ Twins t u

theorem Likened.refl (a : Option Token) : Likened a a := .inl rfl

/-- On two sides that read the same token. -/
theorem Likened.push (h h' : History) (t : Token) :
    Likened (h.push t).current (h'.push t).current := by
  rw [History.current_push, History.current_push]
  exact .refl _

/-- What depends on the kind of the last token, and on words only by their role, is the same. -/
theorem Likened.apply_eq {β : Type} (h : Likened a b) (f : Option TokenKind → β)
    (hf : ∀ k l : TokenKind, k.isWord → l.isWord → SameRole k l → f (some k) = f (some l)) :
    f (a.map Token.kind) = f (b.map Token.kind) := by
  rcases h with rfl | ⟨t, u, rfl, rfl, htwins⟩
  · rfl
  · exact hf t.kind u.kind htwins.left.kind htwins.right.kind htwins.role

theorem Likened.offset_eq {h h' : History} (hlike : Likened h.current h'.current) :
    h.offset = h'.offset := by
  unfold History.offset
  rcases hlike with heq | ⟨t, u, ht, hu, htwins⟩
  · rw [heq]
  · rw [ht, hu, Option.map_some, Option.map_some, htwins.span_eq]

theorem contains_eq_false_of_isWord {kinds : List TokenKind}
    (hkinds : ∀ k ∈ kinds, k.isWord = false) (hk : k.isWord) : kinds.contains k = false := by
  rw [Bool.eq_false_iff]
  intro hmem
  rw [hkinds k (by simpa using hmem)] at hk
  simp at hk

/-- Kinds that are not those of words tell no words apart. -/
theorem contains_eq_of_isWord {kinds : List TokenKind} (hkinds : ∀ k ∈ kinds, k.isWord = false)
    (hk : k.isWord) (hl : l.isWord) : kinds.contains k = kinds.contains l := by
  rw [contains_eq_false_of_isWord hkinds hk, contains_eq_false_of_isWord hkinds hl]

namespace Stage

/-! ## Stages that replace tokens where they stand -/

/-- The stage lets dots and words by, and of the token before another one it sees the role only. -/
structure Overlooks (S : Stage) : Prop where
  /-- Dots are let out as they are. -/
  dot : ∀ s d h next, d.kind = .dot → (S.step s d h).given next = (s, [d])
  /-- So are words. -/
  word : ∀ s t h next, t.IsWord → (S.step s t h).given next = (s, [t])
  /-- It does not matter which of two twins comes before a token. -/
  before : ∀ s t (h h' : History), Likened h.current h'.current →
    S.step s t (h.push t) = S.step s t (h'.push t)
  /-- Nor does it at the end. -/
  atEnd : ∀ s (h h' : History), Likened h.current h'.current → S.atEnd s h = S.atEnd s h'

theorem Overlooks.applyFrom_dot {S : Stage} (hS : S.Overlooks) {d : Token} (hd : d.kind = .dot)
    (s : S.State) (h : History) (ts : List Token) :
    S.applyFrom s h (d :: ts) = d :: S.applyFrom s (h.push d) ts := by
  rw [applyFrom_cons, hS.dot s d (h.push d) _ hd, List.singleton_append]

theorem Overlooks.applyFrom_word {S : Stage} (hS : S.Overlooks) (ht : t.IsWord)
    (s : S.State) (h : History) (ts : List Token) :
    S.applyFrom s h (t :: ts) = t :: S.applyFrom s (h.push t) ts := by
  rw [applyFrom_cons, hS.word s t (h.push t) _ ht, List.singleton_append]

/-- Sequences that are alike stay so. -/
theorem Overlooks.alike_apply {S : Stage} (hS : S.Overlooks) (h : Alike ts us) :
    Alike (S.apply ts) (S.apply us) := by
  have run : ∀ {ts us : List Token}, Alike ts us → ∀ (s : S.State) (h h' : History),
      Likened h.current h'.current → Alike (S.applyFrom s h ts) (S.applyFrom s h' us) := by
    intro ts us halike
    induction halike with
    | nil =>
      intro s h h' hlike
      show Alike (S.atEnd s h) (S.atEnd s h')
      rw [hS.atEnd s h h' hlike]
      exact .refl _
    | same t rest ih =>
      intro s h h' hlike
      rw [applyFrom_cons, applyFrom_cons, hS.before s t h h' hlike, rest.head?_eq]
      exact (ih _ (h.push t) (h'.push t) (.push h h' t)).append_left _
    | @member d t u ts us dot twins rest ih =>
      intro s h h' hlike
      rw [hS.applyFrom_dot dot, hS.applyFrom_dot dot, hS.applyFrom_word twins.left,
        hS.applyFrom_word twins.right]
      have hlike : Likened ((h.push d).push t).current ((h'.push d).push u).current :=
        .inr ⟨t, u, History.current_push _ _, History.current_push _ _, twins⟩
      exact .member dot twins (ih s _ _ hlike)
  exact run h S.start .empty .empty (.refl _)

theorem overlooks_newlineElision : newlineElision.Overlooks where
  dot opened d h next hd := by
    simp only [newlineElision]
    rw [if_neg (by simp [hd]), hd]
    rfl
  word opened t h next ht := by
    have hbracket : t.kind.isBracket = false := by
      obtain ⟨-, hkind, -⟩ := ht
      revert hkind
      cases t.kind <;> decide
    simp only [newlineElision]
    rw [if_neg (TokenKind.isWord_ne ht.kind).1]
    exact congrArg (·, [t]) ((trackBracket_eq _ _).trans (openAfter_of_not_isBracket hbracket))
  before opened t h h' hlike := by
    have hbefore := hlike.apply_eq
      (fun before => before.all [TokenKind.openBracket, .openBrace, .comma].contains)
      fun k l hk hl _ => contains_eq_of_isWord (by decide) hk hl
    simp only [newlineElision, isNeedless, History.lookBack_one_push, hbefore]
  atEnd _ _ _ _ := rfl

theorem overlooks_indentation : indentation.Overlooks where
  dot around d h next hd := by
    simp only [indentation, hd]
    rfl
  word around t h next ht := by
    obtain ⟨hnewline, -, hopen, hclose, -⟩ := TokenKind.isWord_ne ht.kind
    simp only [indentation]
    rfl
  before around t h h' hlike := by
    have hbefore := hlike.apply_eq (fun before => before.any blockWords.contains)
      fun k l _ _ hrole => Bool.eq_iff_iff.2 (by simpa [blockWords] using hrole.block)
    simp only [indentation, History.lookBack_one_push, hbefore]
  atEnd around h h' hlike := by
    show dedents h.offset around = dedents h'.offset around
    rw [hlike.offset_eq]

theorem overlooks_starOperator : starOperator.Overlooks where
  dot _ d h next hd := by
    simp only [starOperator]
    rw [if_neg (by simp [hd])]
    rfl
  word _ t h next ht := by
    have hstar : t.text ≠ "*" := by
      intro htext
      have hword := ht.text
      rw [htext] at hword
      exact absurd hword (by decide)
    simp only [starOperator]
    rw [if_neg fun hkind => hstar hkind.2]
    rfl
  before _ t h h' hlike := by
    have hbefore := hlike.apply_eq (fun before => before.any starWords.contains)
      fun k l _ _ hrole => Bool.eq_iff_iff.2 (by simpa [starWords] using hrole.star)
    simp only [starOperator, History.lookBack_one_push, hbefore]
  atEnd _ _ _ _ := rfl

theorem overlooks_newlineCleanup : newlineCleanup.Overlooks where
  dot _ d h next hd := by
    simp only [newlineCleanup]
    rw [if_neg (by simp [hd])]
    rfl
  word _ t h next ht := by
    simp only [newlineCleanup]
    rw [if_neg (TokenKind.isWord_ne ht.kind).1]
    rfl
  before _ t h h' hlike := by
    have hbefore := hlike.apply_eq
      (fun before => before.all [TokenKind.indent, .equals].contains)
      fun k l hk hl _ => contains_eq_of_isWord (by decide) hk hl
    simp only [newlineCleanup, isNeedless, History.lookBack_one_push, hbefore]
  atEnd _ _ _ _ := rfl

theorem overlooks_cascade : cascade.Overlooks where
  dot _ d h next hd := by
    simp only [cascade]
    rw [if_neg (by simp [hd])]
    rfl
  word _ t h next ht := by
    simp only [cascade]
    rw [if_neg ht.not_pipes]
    rfl
  before _ _ _ _ _ := rfl
  atEnd _ _ _ _ := rfl

end Stage

/-! ## Stages that withhold tokens -/

namespace Withheld

variable {opens : List TokenKind} {w w' : Withheld Bool} {m : TokenKind}

/-- The same groups are open and the same marks due among withheld tokens that are alike, and all of
these are where tokens of certain kinds are. -/
structure AlikeTo (opens : List TokenKind) (w w' : Withheld Bool) : Prop where
  /-- The tokens are alike. -/
  tokens : Alike w.tokens.toList w'.tokens.toList
  /-- The groups are the same. -/
  groups : w.groups = w'.groups
  /-- So are the marks. -/
  marks : w.marks = w'.marks
  /-- Groups were opened by tokens of the given kinds. -/
  groups_open : ∀ g ∈ w.groups, OpensAt opens w.tokens.toList g.1
  /-- Marks are due before such tokens. -/
  marks_open : ∀ p ∈ w.marks, OpensAt opens w.tokens.toList p

namespace AlikeTo

theorem isOpen_eq (h : AlikeTo opens w w') : w.isOpen = w'.isOpen := by
  unfold isOpen
  rw [h.groups]

/-- More may be withheld on both sides. -/
theorem extend (h : AlikeTo opens w w') {vs vs' : List Token} (hvs : Alike vs vs')
    {tokens tokens' : Array Token} (htokens : tokens.toList = w.tokens.toList ++ vs)
    (htokens' : tokens'.toList = w'.tokens.toList ++ vs') :
    AlikeTo opens { w with tokens := tokens } { w' with tokens := tokens' } where
  tokens := by
    rw [htokens, htokens']
    exact h.tokens.append hvs
  groups := h.groups
  marks := h.marks
  groups_open g hg := by
    rw [htokens]
    exact (h.groups_open g hg).append vs
  marks_open p hp := by
    rw [htokens]
    exact (h.marks_open p hp).append vs

theorem hold (h : AlikeTo opens w w') (t : Token) : AlikeTo opens (w.hold t) (w'.hold t) :=
  h.extend (.refl [t]) (Array.toList_push ..) (Array.toList_push ..)

theorem hold_twins (h : AlikeTo opens w w') {d : Token} (hd : d.kind = .dot) (htwins : Twins t u) :
    AlikeTo opens ((w.hold d).hold t) ((w'.hold d).hold u) :=
  h.extend (.member hd htwins .nil) (by simp [Withheld.hold]) (by simp [Withheld.hold])

theorem openGroup (h : AlikeTo opens w w') (datum : Bool) (ht : t.kind ∈ opens) :
    AlikeTo opens ((w.openGroup datum).hold t) ((w'.openGroup datum).hold t) where
  tokens := (h.hold t).tokens
  groups := by
    have hsize : w.tokens.size = w'.tokens.size := h.tokens.length_eq
    show (w.tokens.size, datum) :: w.groups = (w'.tokens.size, datum) :: w'.groups
    rw [hsize, h.groups]
  marks := h.marks
  groups_open g hg := by
    rcases List.mem_cons.1 hg with rfl | hmem
    · refine ⟨t, ?_, ht⟩
      show (w.tokens.push t).toList[w.tokens.size]? = some t
      simp
    · exact (h.hold t).groups_open g hmem
  marks_open := (h.hold t).marks_open

theorem closeGroup (h : AlikeTo opens w w') :
    w.closeGroup.1 = w'.closeGroup.1 ∧ AlikeTo opens w.closeGroup.2 w'.closeGroup.2 ∧
      ∀ g, w.closeGroup.1 = some g → OpensAt opens w.closeGroup.2.tokens.toList g.1 := by
  refine ⟨?_, ?_, ?_⟩
  · show w.groups.head? = w'.groups.head?
    rw [h.groups]
  · exact {
      tokens := h.tokens
      groups := by
        show w.groups.tail = w'.groups.tail
        rw [h.groups]
      marks := h.marks
      groups_open := fun g hg => h.groups_open g (List.mem_of_mem_tail hg)
      marks_open := h.marks_open }
  · intro g hg
    exact h.groups_open g (List.mem_of_head? hg)

theorem mark (h : AlikeTo opens w w') {place : Nat} (hplace : OpensAt opens w.tokens.toList place) :
    AlikeTo opens (w.mark place) (w'.mark place) where
  tokens := h.tokens
  groups := h.groups
  marks := by
    show place :: w.marks = place :: w'.marks
    rw [h.marks]
  groups_open := h.groups_open
  marks_open := List.forall_mem_cons.2 ⟨hplace, h.marks_open⟩

end AlikeTo

/-- No mark comes between a dot and the word after it. -/
theorem alike_withMarks (hopens : ∀ k ∈ opens, k.isWord = false) {marks : List Nat} (place : Nat)
    (h : Alike ts us)
    (hmarks : ∀ i t, place + i ∈ marks → ts[i]? = some t → t.kind ∈ opens) :
    Alike (withMarks m marks place ts) (withMarks m marks place us) := by
  induction h generalizing place with
  | nil => exact .nil
  | same t rest ih =>
    have hrest := ih (place + 1) fun i v hmem hv =>
      hmarks (i + 1) v (by rwa [Nat.add_comm i 1, ← Nat.add_assoc]) (by simpa using hv)
    rw [withMarks_cons, withMarks_cons]
    exact (Alike.same t hrest).append_left _
  | @member d t u ts us dot twins rest ih =>
    have hrest := ih (place + 1 + 1) fun i v hmem hv =>
      hmarks (i + 2) v (by rwa [Nat.add_comm i 2, ← Nat.add_assoc]) (by simpa using hv)
    have hnot : place + 1 ∉ marks := by
      intro hmem
      have hkind := hopens t.kind (hmarks 1 t hmem rfl)
      rw [twins.left.kind] at hkind
      simp at hkind
    have hword (v : Token) (vs : List Token) : withMarks m marks (place + 1) (v :: vs) =
        v :: withMarks m marks (place + 1 + 1) vs := by
      rw [withMarks_cons, if_neg (by simpa using hnot), List.nil_append]
    rw [withMarks_cons marks place d, withMarks_cons marks place d, hword, hword]
    exact (Alike.member dot twins hrest).append_left _

theorem alike_release (hopens : ∀ k ∈ opens, k.isWord = false) (h : AlikeTo opens w w') :
    Alike (w.release m).1 (w'.release m).1 := by
  have hmarks : ∀ i t, 0 + i ∈ w.marks → w.tokens.toList[i]? = some t → t.kind ∈ opens := by
    intro i t hmem ht
    rw [Nat.zero_add] at hmem
    obtain ⟨t', ht', hkind⟩ := h.marks_open i hmem
    rw [ht', Option.some_inj] at ht
    rwa [← ht]
  show Alike (withMarks m w.marks 0 w.tokens.toList) (withMarks m w'.marks 0 w'.tokens.toList)
  rw [← h.marks]
  exact alike_withMarks hopens 0 h.tokens hmarks

end Withheld

namespace Stage

variable {rule : GroupRule} {w w' : Withheld Bool}

/-- Closing a group lets out the same on both sides. -/
theorem alikeTo_afterClose (hopens : ∀ k ∈ rule.opens, k.isWord = false)
    (h : w.AlikeTo rule.opens w') :
    Alike (rule.afterClose w).2 (rule.afterClose w').2 ∧
      (rule.afterClose w).1.AlikeTo rule.opens (rule.afterClose w').1 := by
  unfold GroupRule.afterClose
  rw [← h.isOpen_eq]
  split
  case isTrue => exact ⟨.nil, h⟩
  case isFalse hclosed =>
    refine ⟨Withheld.alike_release hopens h, ?_⟩
    have hgroups : w.groups = [] := by simpa [Withheld.isOpen] using hclosed
    exact {
      tokens := .nil
      groups := h.groups
      marks := rfl
      groups_open := fun g hg => absurd hg (by simp [Withheld.release, hgroups])
      marks_open := fun p hp => absurd hp (by simp [Withheld.release]) }

/-- What is no bracket of the rule is let out, or withheld if a group is open. -/
theorem applyFrom_markGroups_of_plain (name : String) (ht : t.kind ∉ rule.opens ++ rule.closes)
    (w : Withheld Bool) (h : History) (ts : List Token) :
    (markGroups name rule).applyFrom w h (t :: ts) =
      if w.isOpen then (markGroups name rule).applyFrom (w.hold t) (h.push t) ts
      else t :: (markGroups name rule).applyFrom w (h.push t) ts := by
  rw [List.mem_append, not_or] at ht
  have hstep (next : Option TokenKind) : ((markGroups name rule).step w t (h.push t)).given next =
      if w.isOpen then (w.hold t, []) else (w, [t]) := by
    simp only [markGroups]
    rw [if_neg (by simpa using ht.1)]
    by_cases hw : w.isOpen
    · rw [if_neg (by simp [hw]), if_neg (by simpa using ht.2), if_pos hw]
      rfl
    · rw [if_pos (by simp [hw]), if_neg hw]
      rfl
  rw [applyFrom_cons (markGroups name rule) w h t ts, hstep]
  split <;> rfl

/-- What is made of a token that is the same on both sides is alike. -/
theorem alikeTo_step_markGroups (name : String) (hopens : ∀ k ∈ rule.opens, k.isWord = false)
    (heligible : ∀ k l : TokenKind, k.isWord → l.isWord → SameRole k l →
      rule.eligible (some k) = rule.eligible (some l))
    (hw : w.AlikeTo rule.opens w') {h h' : History} (hlike : Likened h.current h'.current)
    (t : Token) (next : Option TokenKind) :
    Alike (((markGroups name rule).step w t (h.push t)).given next).2
        (((markGroups name rule).step w' t (h'.push t)).given next).2 ∧
      (((markGroups name rule).step w t (h.push t)).given next).1.AlikeTo rule.opens
        (((markGroups name rule).step w' t (h'.push t)).given next).1 := by
  have hbefore := hlike.apply_eq rule.eligible heligible
  simp only [markGroups, History.lookBack_one_push, hbefore, ← hw.isOpen_eq]
  by_cases hopen : rule.opens.contains t.kind
  · rw [if_pos hopen, if_pos hopen]
    exact ⟨.nil, hw.openGroup _ (by simpa using hopen)⟩
  rw [if_neg hopen, if_neg hopen]
  by_cases hclosed : !w.isOpen
  · rw [if_pos hclosed, if_pos hclosed]
    exact ⟨.refl [t], hw⟩
  rw [if_neg hclosed, if_neg hclosed]
  by_cases hclose : rule.closes.contains t.kind
  · rw [if_pos hclose, if_pos hclose]
    obtain ⟨hgroup, hrest, hplace⟩ := (hw.hold t).closeGroup
    generalize (w.hold t).closeGroup = closed at hgroup hrest hplace
    generalize (w'.hold t).closeGroup = closed' at hgroup hrest
    obtain ⟨group, v⟩ := closed
    obtain ⟨group', v'⟩ := closed'
    obtain rfl : group = group' := hgroup
    rcases group with _ | ⟨place, _ | _⟩
    · exact alikeTo_afterClose hopens hrest
    · exact alikeTo_afterClose hopens hrest
    · simp only [Ruling.given]
      split
      case isTrue => exact alikeTo_afterClose hopens (hrest.mark (hplace _ rfl))
      case isFalse => exact alikeTo_afterClose hopens hrest
  · rw [if_neg hclose, if_neg hclose]
    exact ⟨.nil, hw.hold t⟩

/-- Sequences that are alike stay so when groups are marked. -/
theorem alike_markGroups (name : String)
    (hplain : ∀ k ∈ rule.opens ++ rule.closes, k.isWord = false ∧ k ≠ .dot)
    (heligible : ∀ k l : TokenKind, k.isWord → l.isWord → SameRole k l →
      rule.eligible (some k) = rule.eligible (some l)) (h : Alike ts us) :
    Alike ((markGroups name rule).apply ts) ((markGroups name rule).apply us) := by
  have hopens : ∀ k ∈ rule.opens, k.isWord = false :=
    fun k hk => (hplain k (List.mem_append_left _ hk)).1
  have hplainDot {d : Token} (hd : d.kind = .dot) : d.kind ∉ rule.opens ++ rule.closes :=
    fun hmem => (hplain _ hmem).2 hd
  have hplainWord {t : Token} (ht : t.IsWord) : t.kind ∉ rule.opens ++ rule.closes := by
    intro hmem
    have hkind := ht.kind
    rw [(hplain _ hmem).1] at hkind
    simp at hkind
  have run : ∀ {ts us : List Token}, Alike ts us → ∀ (w w' : Withheld Bool) (h h' : History),
      w.AlikeTo rule.opens w' → Likened h.current h'.current →
      Alike ((markGroups name rule).applyFrom w h ts)
        ((markGroups name rule).applyFrom w' h' us) := by
    intro ts us halike
    induction halike with
    | nil =>
      intro w w' h h' hw _
      exact Withheld.alike_release hopens
        { hw with groups := rfl, groups_open := fun g hg => absurd hg List.not_mem_nil }
    | @same ts us t rest ih =>
      intro w w' h h' hw hlike
      rw [applyFrom_cons (markGroups name rule) w h t ts,
        applyFrom_cons (markGroups name rule) w' h' t us, rest.head?_eq]
      obtain ⟨hout, hw'⟩ := alikeTo_step_markGroups name hopens heligible hw hlike t
        (us.head?.map Token.kind)
      exact hout.append (ih _ _ (h.push t) (h'.push t) hw' (.push h h' t))
    | @member d t u ts us dot twins rest ih =>
      intro w w' h h' hw _
      have hlike : Likened ((h.push d).push t).current ((h'.push d).push u).current :=
        .inr ⟨t, u, History.current_push _ _, History.current_push _ _, twins⟩
      rw [applyFrom_markGroups_of_plain name (hplainDot dot),
        applyFrom_markGroups_of_plain name (hplainDot dot), ← hw.isOpen_eq]
      by_cases hopen : w.isOpen
      · have hopen' : (w'.hold d).isOpen := by
          rw [← (hw.hold d).isOpen_eq]
          exact hopen
        rw [if_pos hopen, if_pos hopen,
          applyFrom_markGroups_of_plain name (hplainWord twins.left),
          applyFrom_markGroups_of_plain name (hplainWord twins.right), if_pos hopen',
          if_pos (show (w.hold d).isOpen from hopen)]
        exact ih _ _ _ _ (hw.hold_twins dot twins) hlike
      · rw [if_neg hopen, if_neg hopen,
          applyFrom_markGroups_of_plain name (hplainWord twins.left),
          applyFrom_markGroups_of_plain name (hplainWord twins.right), ← hw.isOpen_eq,
          if_neg hopen, if_neg hopen]
        exact .member dot twins (ih w w' _ _ hw hlike)
  exact run h .empty .empty .empty .empty
    ⟨.nil, rfl, rfl, fun _ hg => absurd hg List.not_mem_nil, fun _ hp => absurd hp List.not_mem_nil⟩
    (.refl _)

theorem alike_functionLiteral (h : Alike ts us) :
    Alike (functionLiteral.apply ts) (functionLiteral.apply us) :=
  alike_markGroups _ (by decide) (fun _ _ _ _ _ => rfl) h

theorem alike_destructuring (h : Alike ts us) :
    Alike (destructuring.apply ts) (destructuring.apply us) := by
  refine alike_markGroups _ (by decide) ?_ h
  intro k l hk hl hrole
  -- Of what may come before a pattern only one kind is that of a word.
  have hcontains {k : TokenKind} (hk : k.isWord) :
      [TokenKind.defWord, .comma, .newline, .indent].contains k = (k == .defWord) := by
    have hothers : [TokenKind.comma, .newline, .indent].contains k = false :=
      contains_eq_false_of_isWord (by decide) hk
    rw [List.contains_cons, hothers, Bool.or_false]
  show [TokenKind.defWord, .comma, .newline, .indent].contains k =
    [TokenKind.defWord, .comma, .newline, .indent].contains l
  rw [hcontains hk, hcontains hl, Bool.eq_iff_iff, beq_iff_eq, beq_iff_eq]
  exact hrole.define

/-! ## Members named -/

/-- The tokens are the same, or both identifiers in the same place. -/
def Renamed (t u : Token) : Prop :=
  t = u ∨ (t.kind = .identifier ∧ u.kind = .identifier ∧ t.span = u.span)

/-- What twins after dots are called is all that is left of the difference once they are named. -/
theorem forall₂_memberName (h : Alike ts us) :
    List.Forall₂ Renamed (memberName.apply ts) (memberName.apply us) := by
  have hout (s : Unit) (h : History) (t : Token) (ts : List Token) :
      memberName.applyFrom s h (t :: ts) =
        (if h.current.map Token.kind = some .dot ∧ isLowerWord t.text then
          t.withKind .identifier else t) :: memberName.applyFrom s (h.push t) ts := by
    rw [← History.lookBack_one_push h t]
    rfl
  have hsame (t : Token) {h h' : History} (hlike : Likened h.current h'.current) :
      Renamed
        (if h.current.map Token.kind = some .dot ∧ isLowerWord t.text then
          t.withKind .identifier else t)
        (if h'.current.map Token.kind = some .dot ∧ isLowerWord t.text then
          t.withKind .identifier else t) := by
    have hdot : (h.current.map Token.kind = some .dot) =
        (h'.current.map Token.kind = some .dot) := by
      refine hlike.apply_eq (fun before => before = some .dot) ?_
      intro k l hk hl _
      simp [(TokenKind.isWord_ne hk).2.1, (TokenKind.isWord_ne hl).2.1]
    simp only [hdot]
    exact .inl rfl
  have run : ∀ {ts us : List Token}, Alike ts us → ∀ (s : Unit) (h h' : History),
      Likened h.current h'.current →
      List.Forall₂ Renamed (memberName.applyFrom s h ts) (memberName.applyFrom s h' us) := by
    intro ts us halike
    induction halike with
    | nil => intro s h h' _; exact .nil
    | same t rest ih =>
      intro s h h' hlike
      rw [hout, hout]
      exact .cons (hsame t hlike) (ih s _ _ (.push h h' t))
    | @member d t u ts us dot twins rest ih =>
      intro s h h' hlike
      rw [hout, hout, hout, hout]
      have hlike' : Likened ((h.push d).push t).current ((h'.push d).push u).current :=
        .inr ⟨t, u, History.current_push _ _, History.current_push _ _, twins⟩
      refine .cons (hsame d hlike) (.cons ?_ (ih s _ _ hlike'))
      have hcurrent (h : History) : (h.push d).current.map Token.kind = some .dot := by
        rw [History.current_push, Option.map_some, dot]
      rw [if_pos ⟨hcurrent h, twins.left.text⟩, if_pos ⟨hcurrent h', twins.right.text⟩]
      exact .inr ⟨rfl, rfl, twins.span_eq⟩
  exact run h () .empty .empty (.refl _)

end Stage

end ScriptReader
