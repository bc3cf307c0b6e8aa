import ScriptReader.Pipeline
import ScriptReader.Proofs.Stage.Tiling

/-!
# What stages leave alone

Each stage but that for interpolations is concerned with a few kinds of tokens, and passes all
others on as they are and in their order.  Which stages have to be looked at for a property of some
kinds can therefore be read off a table.

## Main Definitions

* `Pass.touches` — the kinds that a stage drops, makes or renames tokens of
* `Stage.Keeps` — a stage passes on the tokens of certain kinds

## Main Statements

* `Pass.filter_apply_stage` — a stage passes on the tokens that are not of the kinds it touches
* `Pipeline.filter_apply` — so do several stages together

## Design Notes

A word after a dot becomes a name whatever kind it had, so nothing can be said of tokens whose text
is a lower-case word.  That such tokens are not of the kinds in question is a hypothesis here; it is
a fact about words, which stages know nothing of.
-/

namespace ScriptReader

/-- The kinds that a stage drops, makes or renames tokens of, words after a dot apart. -/
def Pass.touches : Pass → List TokenKind
  | .trivia => [.blank, .comment]
  | .newlineElision | .newlineCleanup => [.newline]
  | .indentation => [.indent, .dedent]
  | .starOperator => [.multiplicative, .star]
  | .functionLiteral => [.functionMark]
  | .destructuring => [.patternMark]
  | .cascade => [.pipes, .cascadeRef, .receiverMark]
  | .memberName => [.identifier]
  | .interpolation => TokenKind.all
  | .embeddedSnippet => [.embedded, .embeddedLine, .embeddedBlock]

/-- Nothing of the given kinds is a word of lower-case letters. -/
def AreNoWords (kept : TokenKind → Bool) (ts : List Token) : Prop :=
  ∀ t ∈ ts, kept t.kind → Stage.isLowerWord t.text = false

/-- The stage passes on the tokens of the given kinds as they are and in order, and lets out no
others of these kinds. -/
def Stage.Keeps (S : Stage) (kept : TokenKind → Bool) : Prop :=
  ∀ ts, (S.apply ts).filter (fun t => kept t.kind) = ts.filter fun t => kept t.kind

variable {kept : TokenKind → Bool} {t : Token} {ts us : List Token} {k : TokenKind}

/-- What is said of tokens of the given kinds is said of all lists that have the same of them. -/
theorem forall_of_filter_eq {p : Token → Prop}
    (h : us.filter (fun t => kept t.kind) = ts.filter fun t => kept t.kind)
    (hts : ∀ t ∈ ts, kept t.kind → p t) : ∀ t ∈ us, kept t.kind → p t := by
  intro t ht hkept
  have hmem : t ∈ ts.filter fun t => kept t.kind := by
    rw [← h]
    exact List.mem_filter.2 ⟨ht, hkept⟩
  exact hts t (List.mem_filter.1 hmem).1 hkept

/-! ## Stages that replace tokens where they stand -/

namespace Stage

theorem applyFrom_cons (S : Stage) (s : S.State) (h : History) (t : Token) (ts : List Token) :
    S.applyFrom s h (t :: ts) =
      ((S.step s t (h.push t)).given (ts.head?.map Token.kind)).2 ++
        S.applyFrom ((S.step s t (h.push t)).given (ts.head?.map Token.kind)).1 (h.push t) ts :=
  rfl

/-- It is enough that what is made of each token of the list has the same of them as the token. -/
theorem filter_apply_of_step {S : Stage}
    (hstep : ∀ s t h next, t ∈ ts →
      ((S.step s t h).given next).2.filter (fun t => kept t.kind) =
        [t].filter fun t => kept t.kind)
    (hend : ∀ s h, (S.atEnd s h).filter (fun t => kept t.kind) = []) :
    (S.apply ts).filter (fun t => kept t.kind) = ts.filter fun t => kept t.kind := by
  have run : ∀ (us : List Token) (s : S.State) (h : History), (∀ t ∈ us, t ∈ ts) →
      (S.applyFrom s h us).filter (fun t => kept t.kind) = us.filter fun t => kept t.kind := by
    intro us
    induction us with
    | nil =>
      intro s h _
      exact hend s h
    | cons t us ih =>
      intro s h hus
      obtain ⟨ht, hus⟩ := List.forall_mem_cons.1 hus
      rw [applyFrom_cons, List.filter_append, hstep _ _ _ _ ht, ih _ _ hus, ← List.filter_append,
        List.singleton_append]
  exact run ts S.start .empty fun _ ht => ht

/-- A stage that drops each token or lets it by as it is makes a part of a list, in its order. -/
theorem sublist_applyFrom_of_step {S : Stage}
    (hstep : ∀ s t h next, ((S.step s t h).given next).2.Sublist [t])
    (hend : ∀ s h, S.atEnd s h = []) (s : S.State) (h : History) (ts : List Token) :
    (S.applyFrom s h ts).Sublist ts := by
  induction ts generalizing s h with
  | nil => exact List.sublist_nil.2 (hend s h)
  | cons t ts ih =>
    rw [applyFrom_cons, ← List.singleton_append]
    exact (hstep s t _ _).append (ih _ _)

/-- What is said of every token of a list is said of all that is made of it, if each step sees to
that. -/
theorem forall_apply_of_step {S : Stage} {p : Token → Prop}
    (hstep : ∀ s t h next, p t → ∀ u ∈ ((S.step s t h).given next).2, p u)
    (hend : ∀ s h, ∀ u ∈ S.atEnd s h, p u) (hts : ∀ t ∈ ts, p t) : ∀ u ∈ S.apply ts, p u := by
  have run : ∀ (ts : List Token) (s : S.State) (h : History), (∀ t ∈ ts, p t) →
      ∀ u ∈ S.applyFrom s h ts, p u := by
    intro ts
    induction ts with
    | nil =>
      intro s h _
      exact hend s h
    | cons t ts ih =>
      intro s h hts u hu
      obtain ⟨ht, hts⟩ := List.forall_mem_cons.1 hts
      rw [applyFrom_cons] at hu
      rcases List.mem_append.1 hu with hout | hrest
      · exact hstep s t _ _ ht u hout
      · exact ih _ _ hts u hrest
  exact run ts S.start .empty hts

/-- Renaming a token that is not looked at shows only if its new kind is looked at. -/
theorem filter_withKind (ht : kept t.kind = false) (hk : kept k = false) :
    [t.withKind k].filter (fun t => kept t.kind) = [t].filter fun t => kept t.kind := by
  simp [Token.withKind, ht, hk]

theorem keeps_trivia (hkept : ∀ k ∈ Pass.trivia.touches, kept k = false) : trivia.Keeps kept := by
  intro ts
  refine filter_apply_of_step ?_ fun _ _ => rfl
  intro s t h next _
  rcases step_trivia_cases s t h next with ⟨hout, htrivia⟩ | hout
  · have htouched : t.kind ∈ Pass.trivia.touches := by
      revert htrivia
      cases t.kind <;> simp [TokenKind.isTrivia, Pass.touches]
    simp [hout, hkept t.kind htouched]
  · rw [hout]

theorem keeps_newlineElision (hkept : kept .newline = false) : newlineElision.Keeps kept := by
  intro ts
  refine filter_apply_of_step ?_ fun _ _ => rfl
  intro opened t h next _
  rcases (step_newlineElision_cases opened t h next).2 with ⟨hout, hnewline⟩ | ⟨hout, -⟩
  · simp [hout, hnewline, hkept]
  · rw [hout]

theorem keeps_newlineCleanup (hkept : kept .newline = false) : newlineCleanup.Keeps kept := by
  intro ts
  refine filter_apply_of_step ?_ fun _ _ => rfl
  intro s t h next _
  rcases step_newlineCleanup_cases s t h next with ⟨hout, hnewline⟩ | ⟨hout, -⟩
  · simp [hout, hnewline, hkept]
  · rw [hout]

theorem sublist_step_newlineElision (opened : List TokenKind) (t : Token) (h : History)
    (next : Option TokenKind) : ((newlineElision.step opened t h).given next).2.Sublist [t] := by
  rcases (step_newlineElision_cases opened t h next).2 with ⟨hout, -⟩ | ⟨hout, -⟩
  · rw [hout]
    exact List.nil_sublist [t]
  · exact hout ▸ List.Sublist.refl [t]

theorem sublist_newlineElision (ts : List Token) : (newlineElision.apply ts).Sublist ts :=
  sublist_applyFrom_of_step sublist_step_newlineElision (fun _ _ => rfl) newlineElision.start .empty
    ts

theorem sublist_newlineCleanup (ts : List Token) : (newlineCleanup.apply ts).Sublist ts := by
  refine sublist_applyFrom_of_step ?_ (fun _ _ => rfl) newlineCleanup.start .empty ts
  intro s t h next
  rcases step_newlineCleanup_cases s t h next with ⟨hout, -⟩ | ⟨hout, -⟩
  · rw [hout]
    exact List.nil_sublist [t]
  · exact hout ▸ List.Sublist.refl [t]

theorem keeps_starOperator (hmultiplicative : kept .multiplicative = false)
    (hstar : kept .star = false) : starOperator.Keeps kept := by
  intro ts
  refine filter_apply_of_step ?_ fun _ _ => rfl
  intro s t h next _
  rcases step_starOperator_cases s t h next with ⟨hout, hkind⟩ | hout
  · rw [hout]
    exact filter_withKind (by rw [hkind, hmultiplicative]) hstar
  · rw [hout]

theorem keeps_cascade (hpipes : kept .pipes = false) (href : kept .cascadeRef = false)
    (hmark : kept .receiverMark = false) : cascade.Keeps kept := by
  intro ts
  refine filter_apply_of_step ?_ fun _ _ => rfl
  intro s t h next _
  rcases step_cascade_cases s t h next with ⟨hout, hkind, -⟩ | hout
  · simp [hout, Token.withKind, Token.mark, hkind, hpipes, href, hmark]
  · rw [hout]

/-- The stage that names members keeps what is no word. -/
theorem filter_memberName (hidentifier : kept .identifier = false) (hwords : AreNoWords kept ts) :
    (memberName.apply ts).filter (fun t => kept t.kind) = ts.filter fun t => kept t.kind := by
  refine filter_apply_of_step ?_ fun _ _ => rfl
  intro s t h next ht
  rcases step_memberName_cases s t h next with ⟨hout, -, hword⟩ | hout
  · rw [hout]
    refine filter_withKind ?_ hidentifier
    rw [Bool.eq_false_iff]
    intro hkept
    rw [hwords t ht hkept] at hword
    simp at hword
  · rw [hout]

theorem keeps_embeddedSnippet (hkept : ∀ k ∈ Pass.embeddedSnippet.touches, kept k = false) :
    embeddedSnippet.Keeps kept := by
  intro ts
  refine filter_apply_of_step ?_ fun _ _ => rfl
  intro s t h next _
  rcases step_embeddedSnippet_cases s t h next with ⟨hkind, k, hk, hout⟩ | hout
  · rw [hout]
    exact filter_withKind (by rw [hkind]; exact hkept _ (by decide))
      (hkept k (List.mem_cons_of_mem _ hk))
  · rw [hout]

/-! ### The stage that marks blocks -/

theorem filter_step_indentation (hindent : kept .indent = false) (hdedent : kept .dedent = false)
    (around : List Enclosure) (t : Token) (h : History) (next : Option TokenKind) :
    ((indentation.step around t h).given next).2.filter (fun t => kept t.kind) =
      [t].filter fun t => kept t.kind := by
  obtain ⟨marks, hout, hmarks, -⟩ := exists_step_indentation around t h next
  have hnone : marks.filter (fun t => kept t.kind) = [] := by
    rw [List.filter_eq_nil_iff]
    intro u hu
    rcases hmarks u hu with rfl | rfl
    · simp [Token.mark, hindent]
    · simp [Token.mark, hdedent]
  rw [hout, List.filter_append, hnone, List.nil_append]

theorem keeps_indentation (hindent : kept .indent = false) (hdedent : kept .dedent = false) :
    indentation.Keeps kept := by
  intro ts
  refine filter_apply_of_step ?_ ?_
  case refine_1 =>
    intro around t h next _
    exact filter_step_indentation hindent hdedent around t h next
  case refine_2 =>
    intro around h
    refine List.filter_eq_nil_iff.2 ?_
    intro u hu
    rw [eq_mark_of_mem_dedents hu]
    simp [Token.mark, hdedent]

/-- The marks of blocks are no words either. -/
theorem areNoWords_indentation (h : AreNoWords kept ts) :
    AreNoWords kept (indentation.apply ts) := by
  have hmark (k : TokenKind) (a : Offset) : isLowerWord (Token.mark k a).text = false := rfl
  refine forall_apply_of_step ?_ ?_ h
  case refine_1 =>
    intro around t h next ht u hu
    obtain ⟨marks, hout, hmarks, -⟩ := exists_step_indentation around t h next
    rw [hout] at hu
    rcases List.mem_append.1 hu with hmem | hmem
    · rcases hmarks u hmem with rfl | rfl
      · exact fun _ => hmark _ _
      · exact fun _ => hmark _ _
    · rwa [List.mem_singleton.1 hmem]
  case refine_2 =>
    intro around h u hu
    rw [eq_mark_of_mem_dedents hu]
    exact fun _ => hmark _ _

/-! ### Stages that mark groups -/

theorem filter_of_marked {m : TokenKind} {opens : List TokenKind} (hm : kept m = false)
    (h : Marked m opens ts us) :
    us.filter (fun t => kept t.kind) = ts.filter fun t => kept t.kind := by
  induction h with
  | nil => rfl
  | plain t rest ih => rw [List.filter_cons, List.filter_cons, ih]
  | marked t kind_mem rest ih =>
    rw [List.filter_cons_of_neg (by simp [Token.mark, hm]), List.filter_cons, List.filter_cons, ih]

theorem keeps_markGroups {rule : GroupRule} (hmark : kept rule.mark = false) (name : String) :
    (markGroups name rule).Keeps kept :=
  fun ts => filter_of_marked hmark (marked_markGroups name rule ts)

end Stage

/-! ## Pipelines -/

/-- A stage passes on the tokens that are not of the kinds it touches. -/
theorem Pass.filter_apply_stage (read : String → List Token) (p : Pass)
    (hkept : ∀ k ∈ p.touches, kept k = false) (hwords : p = .memberName → AreNoWords kept ts) :
    ((p.stage read).apply ts).filter (fun t => kept t.kind) =
      ts.filter fun t => kept t.kind := by
  cases p with
  | trivia => exact Stage.keeps_trivia hkept ts
  | newlineElision => exact Stage.keeps_newlineElision (hkept _ (by simp [touches])) ts
  | indentation =>
    exact Stage.keeps_indentation (hkept _ (by simp [touches])) (hkept _ (by simp [touches])) ts
  | starOperator =>
    exact Stage.keeps_starOperator (hkept _ (by simp [touches])) (hkept _ (by simp [touches])) ts
  | functionLiteral =>
    exact Stage.keeps_markGroups (hkept .functionMark (List.mem_singleton_self _)) _ ts
  | newlineCleanup => exact Stage.keeps_newlineCleanup (hkept _ (by simp [touches])) ts
  | destructuring =>
    exact Stage.keeps_markGroups (hkept .patternMark (List.mem_singleton_self _)) _ ts
  | cascade =>
    exact Stage.keeps_cascade (hkept _ (by simp [touches])) (hkept _ (by simp [touches]))
      (hkept _ (by simp [touches])) ts
  | memberName => exact Stage.filter_memberName (hkept _ (by simp [touches])) (hwords rfl)
  | interpolation =>
    -- Rich strings may turn into tokens of any kind.
    have hnone (k : TokenKind) : kept k = false := hkept k (by cases k <;> decide)
    have hnil (us : List Token) : us.filter (fun t => kept t.kind) = [] :=
      List.filter_eq_nil_iff.2 fun t _ => by simp [hnone]
    rw [hnil, hnil]
  | embeddedSnippet => exact Stage.keeps_embeddedSnippet hkept ts

/-- The kinds of the marks that stages make. -/
def markKinds : List TokenKind := [.indent, .dedent, .functionMark, .patternMark, .receiverMark]

/-- The kinds that stages give to tokens of other kinds. -/
def renameKinds : List TokenKind :=
  [.star, .cascadeRef, .identifier, .embeddedLine, .embeddedBlock]

/-- What is said of all tokens of a list is said of all that a stage makes of it, if it is said of
marks and does not go by what stages give to tokens. -/
theorem Pass.forall_apply_stage {p : Token → Prop} (hmark : ∀ k ∈ markKinds, ∀ a, p (.mark k a))
    (hrename : ∀ k ∈ renameKinds, ∀ t, p t → p (t.withKind k)) (read : String → List Token)
    (q : Pass) (hq : q ≠ .interpolation) (hts : ∀ t ∈ ts, p t) :
    ∀ u ∈ (q.stage read).apply ts, p u := by
  have hnone : ∀ u ∈ ([] : List Token), p u := by simp
  have hone {t : Token} (ht : p t) : ∀ u ∈ [t], p u := by simpa using ht
  cases q with
  | trivia =>
    refine Stage.forall_apply_of_step ?_ (fun _ _ => hnone) hts
    intro s t h next ht
    rcases Stage.step_trivia_cases s t h next with ⟨hout, -⟩ | hout
    · exact hout ▸ hnone
    · exact hout ▸ hone ht
  | newlineElision =>
    refine fun u hu => hts u ?_
    exact (Stage.sublist_newlineElision ts).subset hu
  | indentation =>
    refine Stage.forall_apply_of_step ?_ ?_ hts
    case refine_1 =>
      intro around t h next ht u hu
      obtain ⟨marks, hout, hmarks, -⟩ := Stage.exists_step_indentation around t h next
      have hu : u ∈ marks ++ [t] := hout ▸ hu
      rcases List.mem_append.1 hu with hmem | hmem
      · rcases hmarks u hmem with rfl | rfl
        · exact hmark _ (by decide) _
        · exact hmark _ (by decide) _
      · exact hone ht u hmem
    case refine_2 =>
      intro around h u hu
      rw [Stage.eq_mark_of_mem_dedents hu]
      exact hmark _ (by decide) _
  | starOperator =>
    refine Stage.forall_apply_of_step ?_ (fun _ _ => hnone) hts
    intro s t h next ht
    rcases Stage.step_starOperator_cases s t h next with ⟨hout, -⟩ | hout
    · exact hout ▸ hone (hrename _ (by decide) t ht)
    · exact hout ▸ hone ht
  | functionLiteral =>
    exact (Stage.marked_markGroups _ .parameters ts).forall_mem (hmark _ (by decide)) hts
  | newlineCleanup =>
    refine fun u hu => hts u ?_
    exact (Stage.sublist_newlineCleanup ts).subset hu
  | destructuring =>
    exact (Stage.marked_markGroups _ .patterns ts).forall_mem (hmark _ (by decide)) hts
  | cascade =>
    refine Stage.forall_apply_of_step ?_ (fun _ _ => hnone) hts
    intro s t h next ht
    rcases Stage.step_cascade_cases s t h next with ⟨hout, -⟩ | hout
    · exact hout ▸ List.forall_mem_cons.2
        ⟨hrename _ (by decide) t ht, hone (hmark _ (by decide) _)⟩
    · exact hout ▸ hone ht
  | memberName =>
    refine Stage.forall_apply_of_step ?_ (fun _ _ => hnone) hts
    intro s t h next ht
    rcases Stage.step_memberName_cases s t h next with ⟨hout, -⟩ | hout
    · exact hout ▸ hone (hrename _ (by decide) t ht)
    · exact hout ▸ hone ht
  | interpolation => exact absurd rfl hq
  | embeddedSnippet =>
    refine Stage.forall_apply_of_step ?_ (fun _ _ => hnone) hts
    intro s t h next ht
    rcases Stage.step_embeddedSnippet_cases s t h next with ⟨-, k, hk, hout⟩ | hout
    · have hmem : k ∈ renameKinds := by
        have hsubset : ∀ k ∈ [TokenKind.embeddedLine, .embeddedBlock], k ∈ renameKinds := by
          decide
        exact hsubset k hk
      exact hout ▸ hone (hrename k hmem t ht)
    · exact hout ▸ hone ht

theorem Pipeline.forall_apply {p : Token → Prop} (hmark : ∀ k ∈ markKinds, ∀ a, p (.mark k a))
    (hrename : ∀ k ∈ renameKinds, ∀ t, p t → p (t.withKind k)) (read : String → List Token)
    {passes : List Pass} (hpasses : .interpolation ∉ passes) (hts : ∀ t ∈ ts, p t) :
    ∀ u ∈ Pipeline.apply (.ofPasses read passes) ts, p u := by
  induction passes generalizing ts with
  | nil => exact hts
  | cons q passes ih =>
    rw [List.mem_cons, not_or] at hpasses
    exact ih hpasses.2 (q.forall_apply_stage hmark hrename read (Ne.symm hpasses.1) hts)

/-- Several stages pass on the tokens that are of no kind that one of them touches. -/
theorem Pipeline.filter_apply {read : String → List Token} {passes : List Pass}
    (hkept : ∀ p ∈ passes, ∀ k ∈ p.touches, kept k = false) (hwords : AreNoWords kept ts) :
    (Pipeline.apply (.ofPasses read passes) ts).filter (fun t => kept t.kind) =
      ts.filter fun t => kept t.kind := by
  induction passes generalizing ts with
  | nil => rfl
  | cons p passes ih =>
    obtain ⟨hp, hpasses⟩ := List.forall_mem_cons.1 hkept
    have hstage := Pass.filter_apply_stage read p hp fun _ => hwords
    have hrest := ih hpasses (forall_of_filter_eq hstage hwords)
    rw [hstage] at hrest
    exact hrest

/-- Several stages pass on the tokens that are of no kind that one of them touches, but for newlines
that are dropped. -/
theorem Pipeline.sublist_filter_apply {read : String → List Token} {passes : List Pass}
    (hkept : ∀ p ∈ passes, p = .newlineElision ∨ p = .newlineCleanup ∨
      ∀ k ∈ p.touches, kept k = false) (hwords : AreNoWords kept ts) :
    ((Pipeline.apply (.ofPasses read passes) ts).filter fun t => kept t.kind).Sublist
      (ts.filter fun t => kept t.kind) := by
  induction passes generalizing ts with
  | nil => exact .refl _
  | cons p passes ih =>
    obtain ⟨hp, hpasses⟩ := List.forall_mem_cons.1 hkept
    have hstage : (((p.stage read).apply ts).filter fun t => kept t.kind).Sublist
        (ts.filter fun t => kept t.kind) := by
      rcases hp with rfl | rfl | hp
      · exact (Stage.sublist_newlineElision ts).filter _
      · exact (Stage.sublist_newlineCleanup ts).filter _
      · exact (p.filter_apply_stage read hp fun _ => hwords) ▸ List.Sublist.refl _
    have hwords' : AreNoWords kept ((p.stage read).apply ts) := by
      intro t ht hk
      have hmem := hstage.subset (List.mem_filter.2 ⟨ht, hk⟩)
      exact hwords t (List.mem_filter.1 hmem).1 hk
    exact (ih hpasses hwords').trans hstage

end ScriptReader
