import ScriptReader.Proofs.Stage.Kept
import ScriptReader.Proofs.Token.Adjacency

/-!
# What stages do to neighbours

Newlines are dropped in two rounds, and marks are put in before, between and after these.  Each
stage sees to one demand on neighbours, and has to leave alone what those before it have seen to.

## Main Definitions

* `Demands.lined`, `Demands.blocked`, `Demands.called`, `Demands.cleaned`, `Demands.bound`,
  `Demands.standard` — what can be relied on after each of the stages

## Main Statements

* `Stage.beside_apply_of_step` — neighbours are related in what a stage makes, if each step says so
* `Stage.beside_newlineElision`, `Stage.beside_indentation`, `Stage.beside_functionLiteral`,
  `Stage.beside_newlineCleanup`, `Stage.beside_destructuring`, `Stage.beside_cascade` — what each
  stage adds
* `Stage.beside_starOperator`, `Stage.beside_memberName`, `Stage.beside_embeddedSnippet` — stages
  that add nothing

## Design Notes

A mark that has not been made yet is one that nothing may follow, so that a stage which makes it
starts from a demand that no list with such a mark could meet.

The kinds that a stage puts out beside each other need not have come in beside each other.  What is
known of the last kind that was let out is carried along as a `link` to the one that comes next.
-/

namespace ScriptReader

variable {ts us : List Token} {a b o next : Option TokenKind} {k : TokenKind}

/-! ## What is demanded after each stage -/

namespace Demands

/-- Needless newlines have been dropped, and there are no marks yet. -/
def lined : Demands where
  afterNewline :=
    isOther [.newline, .closeBracket, .closeBrace, .comma, .pipes, .cascadeRef, .dedent]
  afterIndent := isAmong []
  afterFunctionMark := isAmong []
  afterPatternMark := isAmong []
  afterReceiverMark := isAmong []
  beforeNewline _ := true

/-- Blocks have been marked: they start at newlines. -/
def blocked : Demands := { lined with afterIndent := isAmong [.newline] }

/-- Lists of parameters have been marked. -/
def called : Demands := { blocked with afterFunctionMark := isAmong [.openParen] }

/-- Newlines that the marks of blocks have made needless have been dropped too. -/
def cleaned : Demands :=
  { called with
    afterNewline :=
      isOther ([.newline, .closeBracket, .closeBrace, .comma, .pipes, .cascadeRef, .dedent] ++
        [.elseWord, .catchWord, .finallyWord, .dedent])
    afterIndent := isOther [.newline, .dedent]
    beforeNewline := isOther [.newline, .indent, .equals] }

/-- Patterns have been marked. -/
def bound : Demands := { cleaned with afterPatternMark := isAmong [.openBrace, .openBracket] }

/-- Receivers have been marked, which is the last mark to be made. -/
def standard : Demands := { bound with afterReceiverMark := isAmong [.dot] }

end Demands

open Demands

namespace Stage

/-- Neighbours are related in what a stage makes of a list if each step sees to that.  The `link`
says how what was read last, what was let out last and what comes next fit together. -/
theorem beside_apply_of_step {S : Stage} {R R' : Option TokenKind → Option TokenKind → Prop}
    (link : Option TokenKind → Option TokenKind → Option TokenKind → Prop)
    (hstart : ∀ next, R none next → link none none next)
    (hstep : ∀ s t (h : History) last next, h.current.map Token.kind = last →
      R last (some t.kind) → R (some t.kind) next →
      ∀ out rest, link last out (some t.kind) →
        (∀ out', link (some t.kind) out' next → Beside R' out' rest) →
        Beside R' out ((((S.step s t (h.push t)).given next).2).map Token.kind ++ rest))
    (hend : ∀ s h last out, R last none → link last out none →
      Beside R' out ((S.atEnd s h).map Token.kind))
    (hts : Beside R none (ts.map Token.kind)) : Beside R' none ((S.apply ts).map Token.kind) := by
  have run : ∀ (ts : List Token) (s : S.State) (h : History) (last out : Option TokenKind),
      h.current.map Token.kind = last → link last out (ts.head?.map Token.kind) →
      Beside R last (ts.map Token.kind) →
      Beside R' out ((S.applyFrom s h ts).map Token.kind) := by
    intro ts
    induction ts with
    | nil =>
      intro s h last out _ hlink hts
      exact hend s h last out (beside_nil.1 hts) hlink
    | cons t ts ih =>
      intro s h last out hlast hlink hts
      obtain ⟨hhead, hrest⟩ := beside_cons.1 hts
      have hnext : R (some t.kind) (ts.head?.map Token.kind) := by
        rw [← List.head?_map]
        exact hrest.head
      rw [applyFrom_cons, List.map_append]
      refine hstep s t h last _ hlast hhead hnext out _ hlink ?_
      intro out' hlink'
      exact ih _ (h.push t) (some t.kind) out' (by rw [History.current_push]; rfl) hlink' hrest
  have hfirst : R none (ts.head?.map Token.kind) := by
    rw [← List.head?_map]
    exact hts.head
  exact run ts S.start .empty none none rfl (hstart _ hfirst) hts

/-! ### Newlines dropped for the first time -/

/-- A newline is needed between others than the kinds that make it needless. -/
theorem isNeedless_eq_false {noBreakAfter noBreakBefore : List TokenKind}
    (h : isNeedless noBreakAfter noBreakBefore a b = false) :
    isOther noBreakAfter a ∧ isOther noBreakBefore b := by
  cases a <;> cases b <;> simp_all [isNeedless]

/-- What the lexer makes demands nothing of what follows it, unless it is a newline. -/
theorem isFree_of_index_le (hle : k.index ≤ TokenKind.bang.index) (hk : k ≠ .newline) :
    IsFree (some k) := by
  refine isFree_some ?_
  revert hle hk
  cases k <;> decide

/-- Before the pipeline has made any kinds, there is no need to exclude those. -/
theorem isOther_of_index_le (hle : ∀ k, next = some k → k.index ≤ TokenKind.bang.index)
    (h : isOther [.newline, .closeBracket, .closeBrace, .comma, .pipes] next) :
    lined.afterNewline next := by
  cases next with
  | none => simp at h
  | some k =>
    have hk := hle k rfl
    revert hk h
    cases k <;> decide

theorem beside_newlineElision (hts : ∀ t ∈ ts, t.kind.index ≤ TokenKind.bang.index) :
    Beside lined.Allow none ((newlineElision.apply ts).map Token.kind) := by
  have hbefore (a b : Option TokenKind) : lined.before b a = true := before_eq fun _ => rfl
  have hlexed : ∀ k ∈ ts.map Token.kind, k.index ≤ TokenKind.bang.index := by simpa using hts
  refine beside_apply_of_step (fun _ out next => lined.Allow out next) ?_ ?_ ?_
    (Beside.of_forall hlexed)
  case refine_1 =>
    intro next _
    exact ⟨isFree_none.after_eq, hbefore _ _⟩
  case refine_2 =>
    intro opened t h last next _ hlast hnext out rest hlink hrest
    rcases (step_newlineElision_cases opened t (h.push t) next).2 with
      ⟨hout, hkind⟩ | ⟨hout, hneeded⟩
    · -- What was let out last is no newline, and so demands nothing.
      rw [hkind] at hlink
      have hfree : IsFree out := isFree_of_after hlink.after (by decide)
      rw [hout]
      exact hrest out ⟨hfree.after_eq, hbefore _ _⟩
    · rw [hout]
      refine beside_cons.2 ⟨hlink, hrest _ ⟨?_, hbefore _ _⟩⟩
      by_cases hkind : t.kind = .newline
      · rw [hkind]
        exact isOther_of_index_le hnext (isNeedless_eq_false (hneeded hkind).2).2
      · exact (isFree_of_index_le (hlast t.kind rfl) hkind).after_eq
  case refine_3 =>
    intro opened h last out _ hlink
    exact beside_nil.2 hlink

/-! ### Blocks marked -/

theorem lined_allow_blocked (h : lined.Allow a b) : blocked.Allow a b :=
  h.mono (by simp [demanding, lined, blocked]) id

/-- Marks for the ends of blocks may stand between what demands nothing and what makes no demand on
such. -/
theorem beside_dedents {d : Demands} {place : Offset} {closed : List Enclosure}
    {rest : List TokenKind} (ho : IsFree o) (hrest : ∀ o, IsFree o → Beside d.Allow o rest) :
    Beside d.Allow o ((dedents place closed).map Token.kind ++ rest) := by
  have hkinds : ∀ k ∈ (dedents place closed).map Token.kind, k = .dedent := by
    intro k hk
    obtain ⟨u, hu, rfl⟩ := List.mem_map.1 hk
    rw [eq_mark_of_mem_dedents hu]
    rfl
  generalize (dedents place closed).map Token.kind = ks at hkinds
  induction ks generalizing o with
  | nil => exact hrest o ho
  | cons k ks ih =>
    obtain ⟨rfl, hks⟩ := List.forall_mem_cons.1 hkinds
    exact beside_cons.2 ⟨ho.allow (by simp), ih (isFree_some (by decide)) hks⟩

theorem beside_indentation (hts : Beside lined.Allow none (ts.map Token.kind)) :
    Beside blocked.Allow none ((indentation.apply ts).map Token.kind) := by
  refine beside_apply_of_step (fun last out _ => out = last) (fun _ _ => rfl) ?_ ?_ hts
  case refine_1 =>
    intro around t h last next _ hlast _ out rest hlink hrest
    subst hlink
    have hlater := hrest (some t.kind) rfl
    rcases step_indentation_cases around t (h.push t) next with
      ⟨hout, hkind⟩ | ⟨closed, hout, hkind⟩
    · rw [hkind] at hlast
      have hfree : IsFree out := isFree_of_after hlast.after (by decide)
      rw [hout]
      refine beside_cons.2 ⟨hfree.allow (by simp [Token.mark]), beside_cons.2 ⟨?_, hlater⟩⟩
      rw [hkind]
      exact ⟨rfl, rfl⟩
    · rw [hout, List.map_append, List.append_assoc]
      by_cases hclosed : closed = []
      · subst hclosed
        exact beside_cons.2 ⟨lined_allow_blocked hlast, hlater⟩
      · have hfree : IsFree out := by
          rcases hkind hclosed with hkind | hkind
          · exact isFree_of_after (hkind ▸ hlast.after) (by decide)
          · exact isFree_of_after (hkind ▸ hlast.after) (by decide)
        refine beside_dedents hfree fun o ho => beside_cons.2 ⟨⟨ho.after_eq, ?_⟩, hlater⟩
        exact before_eq fun _ => rfl
  case refine_2 =>
    intro around h last out hlast hlink
    subst hlink
    have hfree : IsFree out := isFree_of_after hlast.after (by decide)
    rw [← List.append_nil ((indentation.atEnd around h).map Token.kind)]
    exact beside_dedents hfree fun o ho => beside_nil.2 (ho.allow (by simp))

/-! ### Stars -/

theorem beside_starOperator (hts : Beside blocked.Allow none (ts.map Token.kind)) :
    Beside blocked.Allow none ((starOperator.apply ts).map Token.kind) := by
  refine beside_apply_of_step (fun _ out next => blocked.Allow out next) (fun _ h => h) ?_ ?_ hts
  case refine_1 =>
    intro s t h last next _ _ hnext out rest hlink hrest
    rcases step_starOperator_cases s t (h.push t) next with ⟨hout, hkind⟩ | hout
    · -- Nothing tells a star from a multiplication.
      have hbefore (a b : Option TokenKind) : blocked.before b a = true := before_eq fun _ => rfl
      have hplace : blocked.after out (some .star) := after_mono (hkind ▸ hlink.after) (by decide)
      have hfree : IsFree (some .star) := isFree_some (by decide)
      rw [hout]
      exact beside_cons.2 ⟨⟨hplace, hbefore _ _⟩, hrest _ ⟨hfree.after_eq, hbefore _ _⟩⟩
    · rw [hout]
      exact beside_cons.2 ⟨hlink, hrest _ hnext⟩
  case refine_2 =>
    intro _ h last out _ hlink
    exact beside_nil.2 hlink

/-! ### Groups marked -/

/-- Marks may be put before tokens, if they may stand where these may. -/
theorem beside_of_marked {R R' : Option TokenKind → Option TokenKind → Prop} {m : TokenKind}
    {opens : List TokenKind} (hkeep : ∀ a b, R a b → R' a b)
    (hplace : ∀ k ∈ opens, ∀ a, R a (some k) → R' a (some m))
    (hopens : ∀ k ∈ opens, R' (some m) (some k)) (h : Marked m opens ts us)
    (hts : Beside R o (ts.map Token.kind)) : Beside R' o (us.map Token.kind) := by
  induction h generalizing o with
  | nil => exact beside_nil.2 (hkeep _ _ (beside_nil.1 hts))
  | plain t rest ih =>
    obtain ⟨hhead, hrest⟩ := beside_cons.1 hts
    exact beside_cons.2 ⟨hkeep _ _ hhead, ih hrest⟩
  | marked t kind_mem rest ih =>
    obtain ⟨hhead, hrest⟩ := beside_cons.1 hts
    have hmark := hplace t.kind kind_mem _ hhead
    exact beside_cons.2 ⟨hmark, beside_cons.2 ⟨hopens t.kind kind_mem, ih hrest⟩⟩

theorem beside_functionLiteral (hts : Beside blocked.Allow none (ts.map Token.kind)) :
    Beside called.Allow none ((functionLiteral.apply ts).map Token.kind) := by
  refine beside_of_marked ?_ ?_ ?_ (marked_markGroups _ .parameters ts) hts
  case refine_1 =>
    intro a b h
    exact h.mono (by simp [demanding, lined, blocked, called]) id
  case refine_2 =>
    intro k hk a h
    obtain rfl : k = .openParen := List.mem_singleton.1 hk
    exact ⟨after_mono h.after (by decide), before_of_ne (by decide)⟩
  case refine_3 =>
    intro k hk
    obtain rfl : k = .openParen := List.mem_singleton.1 hk
    exact ⟨rfl, rfl⟩

theorem beside_destructuring (hts : Beside cleaned.Allow none (ts.map Token.kind)) :
    Beside bound.Allow none ((destructuring.apply ts).map Token.kind) := by
  have hopens : ∀ k ∈ GroupRule.patterns.opens, k = .openBrace ∨ k = .openBracket := by decide
  refine beside_of_marked ?_ ?_ ?_ (marked_markGroups _ .patterns ts) hts
  case refine_1 =>
    intro a b h
    exact h.mono (by simp [demanding, lined, blocked, called, cleaned, bound]) id
  case refine_2 =>
    intro k hk a h
    refine ⟨?_, before_of_ne (by decide)⟩
    rcases hopens k hk with rfl | rfl
    · exact after_mono h.after (by decide)
    · exact after_mono h.after (by decide)
  case refine_3 =>
    intro k hk
    rcases hopens k hk with rfl | rfl
    · exact ⟨rfl, rfl⟩
    · exact ⟨rfl, rfl⟩

/-! ### Newlines dropped once more -/

/-- A newline follows the start of a block or what demands nothing. -/
theorem isFree_or_of_called (h : called.Allow a (some .newline)) : a = some .indent ∨ IsFree a := by
  have hreject : ∀ k ∈ demanding, k ≠ .indent → called.after (some k) (some .newline) = false := by
    decide
  by_cases hindent : a = some .indent
  · exact .inl hindent
  · refine .inr ?_
    rintro k hk rfl
    have hafter := h.after
    rw [hreject k hk (by simpa using hindent)] at hafter
    simp at hafter

/-- No newline follows another. -/
theorem ne_newline_of_called (h : called.Allow (some .newline) b) : b ≠ some .newline := by
  rintro rfl
  exact absurd h.after (by decide)

/-- What is not beside a newline is as before. -/
theorem cleaned_of_called (h : called.Allow a b) (ha : a ≠ some .newline)
    (hb : b ≠ some .newline) : cleaned.Allow a b := by
  refine ⟨?_, before_of_ne hb⟩
  by_cases hfree : IsFree a
  · exact hfree.after_eq
  · simp only [IsFree, not_forall, not_not] at hfree
    obtain ⟨k, hk, rfl⟩ := hfree
    have hafter := h.after
    simp only [demanding, List.mem_cons, List.not_mem_nil, or_false] at hk
    rcases hk with rfl | rfl | rfl | rfl | rfl
    · exact absurd rfl ha
    · have hnewline : isAmong [.newline] b := hafter
      rw [eq_of_isAmong hnewline] at hb
      exact absurd rfl hb
    · exact hafter
    · exact hafter
    · exact hafter

theorem beside_newlineCleanup (hts : Beside called.Allow none (ts.map Token.kind)) :
    Beside cleaned.Allow none ((newlineCleanup.apply ts).map Token.kind) := by
  refine beside_apply_of_step
    (fun last out next => if next = some .newline then out = last else cleaned.Allow out next)
    ?_ ?_ ?_ hts
  case refine_1 =>
    intro next _
    split
    case isTrue => rfl
    case isFalse hnext => exact isFree_none.allow hnext
  case refine_2 =>
    intro s t h last next hlast hbefore hafter out rest hlink hrest
    by_cases hkind : t.kind = .newline
    · rw [hkind] at hbefore hafter hlink hrest
      rw [if_pos rfl] at hlink
      subst hlink
      have hnext := ne_newline_of_called hafter
      simp only [if_neg hnext] at hrest
      rcases step_newlineCleanup_cases s t (h.push t) next with ⟨hout, -⟩ | ⟨hout, hneeded⟩
      · -- What follows the newline now follows what came before it.
        rw [hout]
        refine hrest out ⟨?_, before_of_ne hnext⟩
        rcases isFree_or_of_called hbefore with rfl | hfree
        · exact isOther_of_subset (by simp) hafter.after
        · exact hfree.after_eq
      · obtain ⟨hother, hother'⟩ := isNeedless_eq_false (hneeded hkind)
        rw [History.lookBack_one_push, hlast] at hother
        have hfree : IsFree out := by
          rcases isFree_or_of_called hbefore with rfl | hfree
          · simp at hother
          · exact hfree
        have hnewline : isOther [.newline] out := by
          cases out with
          | none => simp at hother
          | some k => simpa using hfree .newline (by decide)
        rw [hout, List.map_singleton, List.singleton_append, hkind]
        exact beside_cons.2 ⟨⟨hfree.after_eq, isOther_append hnewline hother⟩,
          hrest _ ⟨isOther_append hafter.after hother', before_of_ne hnext⟩⟩
    · rw [if_neg (by simpa using hkind)] at hlink
      have hkept : ((newlineCleanup.step s t (h.push t)).given next).2 = [t] := by
        rcases step_newlineCleanup_cases s t (h.push t) next with ⟨-, hnewline⟩ | ⟨hout, -⟩
        · exact absurd hnewline hkind
        · exact hout
      rw [hkept]
      refine beside_cons.2 ⟨hlink, hrest _ ?_⟩
      split
      case isTrue => rfl
      case isFalse hnext => exact cleaned_of_called hafter (by simpa using hkind) hnext
  case refine_3 =>
    intro _ h last out _ hlink
    exact beside_nil.2 hlink

/-! ### Receivers marked -/

theorem bound_allow_standard (h : bound.Allow a b) : standard.Allow a b :=
  h.mono (by simp [demanding, lined, blocked, called, cleaned, bound, standard]) id

theorem beside_cascade (hts : Beside bound.Allow none (ts.map Token.kind)) :
    Beside standard.Allow none ((cascade.apply ts).map Token.kind) := by
  refine beside_apply_of_step (fun _ out next => standard.Allow out next)
    (fun _ h => bound_allow_standard h) ?_ ?_ hts
  case refine_1 =>
    intro s t h last next _ _ hafter out rest hlink hrest
    rcases step_cascade_cases s t (h.push t) next with ⟨hout, hkind, hdot⟩ | hout
    · -- A reference may stand wherever pipes may.
      have hplace : standard.after out (some .cascadeRef) :=
        after_mono (hkind ▸ hlink.after) (by decide)
      have hmark : standard.Allow (some .cascadeRef) (some .receiverMark) := ⟨rfl, rfl⟩
      have hreceiver := hrest (some .receiverMark) ⟨by rw [hdot]; rfl, by rw [hdot]; rfl⟩
      rw [hout]
      exact beside_cons.2 ⟨⟨hplace, rfl⟩, beside_cons.2 ⟨hmark, hreceiver⟩⟩
    · rw [hout]
      exact beside_cons.2 ⟨hlink, hrest _ (bound_allow_standard hafter)⟩
  case refine_2 =>
    intro _ h last out _ hlink
    exact beside_nil.2 hlink

/-! ### Members named -/

theorem beside_memberName (hts : Beside standard.Allow none (ts.map Token.kind)) :
    Beside standard.Allow none ((memberName.apply ts).map Token.kind) := by
  -- What follows a dot follows a dot or a name, neither of which demands anything.
  refine beside_apply_of_step
    (fun last out next => standard.Allow out next ∧ (last = some .dot → IsFree out))
    (fun _ h => ⟨h, fun _ => isFree_none⟩) ?_ ?_ hts
  case refine_1 =>
    intro s t h last next hlast _ hafter out rest ⟨hlink, hdot⟩ hrest
    rcases step_memberName_cases s t (h.push t) next with ⟨hout, hmember, -⟩ | hout
    · rw [History.lookBack_one_push, hlast] at hmember
      have hname : IsFree (some .identifier) := isFree_some (by decide)
      rw [hout]
      refine beside_cons.2 ⟨(hdot hmember).allow (by simp [Token.withKind]), ?_⟩
      refine hrest _ ⟨⟨hname.after_eq, ?_⟩, fun _ => hname⟩
      by_cases hnewline : next = some .newline
      · rw [hnewline]
        rfl
      · exact before_of_ne hnewline
    · rw [hout]
      refine beside_cons.2 ⟨hlink, hrest _ ⟨hafter, ?_⟩⟩
      intro hkind
      rw [hkind]
      exact isFree_some (by decide)
  case refine_2 =>
    intro _ h last out _ hlink
    exact beside_nil.2 hlink.1

/-! ### Snippets told apart -/

theorem beside_embeddedSnippet (hts : Beside standard.Allow none (ts.map Token.kind)) :
    Beside standard.Allow none ((embeddedSnippet.apply ts).map Token.kind) := by
  have hplain : ∀ k ∈ [TokenKind.embeddedLine, .embeddedBlock],
      (∀ l ∈ demanding, standard.after (some l) (some .embedded) →
        standard.after (some l) (some k)) ∧
      some k ≠ some .newline ∧ k ∉ demanding ∧ standard.beforeNewline (some k) := by
    decide
  refine beside_apply_of_step (fun _ out next => standard.Allow out next) (fun _ h => h) ?_ ?_ hts
  case refine_1 =>
    intro s t h last next _ _ hafter out rest hlink hrest
    rcases step_embeddedSnippet_cases s t (h.push t) next with ⟨hkind, k, hk, hout⟩ | hout
    · obtain ⟨hplace, hne, hfree, hbefore⟩ := hplain k hk
      have hnext : standard.before next (some k) := by
        by_cases hnewline : next = some .newline
        · rw [hnewline]
          exact hbefore
        · exact before_of_ne hnewline
      rw [hout]
      exact beside_cons.2 ⟨⟨after_mono (hkind ▸ hlink.after) hplace, before_of_ne hne⟩,
        hrest _ ⟨(isFree_some hfree).after_eq, hnext⟩⟩
    · rw [hout]
      exact beside_cons.2 ⟨hlink, hrest _ hafter⟩
  case refine_2 =>
    intro _ h last out _ hlink
    exact beside_nil.2 hlink

end Stage

end ScriptReader
