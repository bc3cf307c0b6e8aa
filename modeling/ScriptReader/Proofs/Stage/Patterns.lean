import ScriptReader.Proofs.Stage.Groups
import ScriptReader.Proofs.Stage.Newlines
import ScriptReader.Proofs.Token.Sites

/-!
# Brackets that an assignment follows

Whether a bracket opens a pattern is decided late, when layout has been dropped or made explicit.
Until then the tokens around the bracket change, but not what matters about them: its group is
closed, an assignment follows, and the token right before it is one of a few kinds.

## Main Definitions

* `IsAssigned` — the rest of a group, with an assignment behind it
* `Token.content?` — what is left of a token if layout and marks are not seen
* `StandsAfter` — a bracket before the rest of such a group, and what is known of what is before it
* `Stage.KeepsGroups` — a stage that decides token by token and leaves groups as they are

## Main Statements

* `IsAssigned.isFollowed` — a group that an assignment follows counts as a pattern
* `IsAssigned.applyFrom`, `StandsAfter.apply` — such a stage leaves the bracket in its place
* `StandsAfter.newlineElision`, `StandsAfter.newlineCleanup` — where a newline has been dropped, the
  token before it is of a kind that no newline is needed after
* `StandsAfter.destructuring` — the bracket is marked, or it comes after one of a few tokens

## Design Notes

The kinds that may come right before the bracket are listed, and grow where newlines are dropped.
Which token that is can be told from its kind by looking at the source without its layout.
-/

namespace ScriptReader

open Stage (newlineElision indentation starOperator functionLiteral newlineCleanup destructuring
  isNeedless)

/-- The tokens are the rest of a group, whose brackets all close, with an assignment behind it. -/
def IsAssigned (ts : List Token) : Prop :=
  ∃ inner c e back, ts = inner ++ c :: e :: back ∧ NestedIn brackets (inner.map Token.kind) ∧
    c.kind ∈ [.closeBrace, .closeBracket] ∧ e.kind ∈ [.equals, .define]

/-- The kinds of layout and of the marks that are made up to those of patterns. -/
def Token.unseenKinds : List TokenKind :=
  [.blank, .comment, .newline, .indent, .dedent, .functionMark, .patternMark]

/-- What is left of a token if neither layout nor marks are seen, and no difference between a star
and a multiplication. -/
def Token.content? (t : Token) : Option Token :=
  if t.kind ∈ Token.unseenKinds then none
  else some (if t.kind = .star then t.withKind .multiplicative else t)

/-- The bracket `g` stands before the rest of its group, with an assignment behind it.  Right before
it is nothing or a token of one of the kinds `lasts`, and what is before it is left of `origin`. -/
def StandsAfter (lasts : List TokenKind) (origin : List Token) (g : Token) (ts : List Token) :
    Prop :=
  ∃ front rest, ts = front ++ g :: rest ∧ (∀ t ∈ front.getLast?, t.kind ∈ lasts) ∧
    front.filterMap Token.content? = origin.filterMap Token.content? ∧ IsAssigned rest

variable {ts us front origin : List Token} {t g : Token} {opened ks : List TokenKind}

/-! ## What is left of a token -/

namespace Token

theorem content?_eq_some (ht : t.kind ∉ unseenKinds) (hstar : t.kind ≠ .star) :
    t.content? = some t := by
  rw [content?, if_neg ht, if_neg hstar]

theorem content?_of_isBracket (ht : t.kind.isBracket) : t.content? = some t := by
  have hkind : t.kind ∉ unseenKinds ∧ t.kind ≠ .star := by
    revert ht
    cases t.kind <;> decide
  exact content?_eq_some hkind.1 hkind.2

/-- A star is a multiplication again. -/
theorem content?_withKind_star (ht : t.kind = .multiplicative) :
    (t.withKind .star).content? = t.content? := by
  have hsame : (t.withKind .star).withKind .multiplicative = t := by
    rw [← ht]
    rfl
  have hstar : (t.withKind .star).content? =
      some ((t.withKind .star).withKind .multiplicative) := rfl
  rw [hstar, hsame, content?, ht]
  rfl

/-- What is no bracket does not become one. -/
theorem filter_content? (t : Token) :
    t.content?.filter (fun u => u.kind.isBracket) = Option.guard (fun u => u.kind.isBracket) t := by
  by_cases ht : t.kind.isBracket
  · rw [content?_of_isBracket ht, Option.filter_some, Option.guard]
  · rw [Option.guard, if_neg ht]
    unfold content?
    split
    case isTrue => rfl
    case isFalse =>
      rw [Option.filter_some, if_neg]
      split
      case isTrue => exact Bool.false_ne_true
      case isFalse => exact ht

/-- Brackets are left as they are. -/
theorem filter_filterMap_content? (ts : List Token) :
    (ts.filterMap content?).filter (fun t => t.kind.isBracket) =
      ts.filter fun t => t.kind.isBracket := by
  rw [List.filter_filterMap, ← List.filterMap_eq_filter]
  exact congrArg (List.filterMap · ts) (funext filter_content?)

theorem filter_isBracket_of_content? (h : us.filterMap content? = ts.filterMap content?) :
    us.filter (fun t => t.kind.isBracket) = ts.filter fun t => t.kind.isBracket := by
  rw [← filter_filterMap_content?, h, filter_filterMap_content?]

end Token

/-! ## Groups that an assignment follows -/

/-- Brackets that are well nested close what is open, told apart or not. -/
theorem bracketsClose_of_unclosed (h : unclosed brackets opened ks = some []) :
    BracketsClose [.openBrace, .openBracket] [.closeBrace, .closeBracket]
      (opened.countP [.openBrace, .openBracket].contains) ks := by
  induction ks generalizing opened with
  | nil =>
    obtain rfl : opened = [] := Option.some.inj h
    exact bracketsClose_nil_iff.2 rfl
  | cons k ks ih =>
    rw [unclosed_cons, Option.bind_eq_some_iff] at h
    obtain ⟨left, hread, hrest⟩ := h
    refine bracketsClose_cons_iff.2 ⟨_, ?_, ih hrest⟩
    rcases isPaired_cases brackets k with hk | ⟨hk, o, ho, hpartner⟩ | hk
    · rw [readPair_of_mem hk, Option.some_inj] at hread
      have hcloses : ∀ k ∈ brackets, [.closeBrace, .closeBracket].contains k = false := by decide
      rw [← hread, List.countP_cons, hcloses k hk]
      rfl
    · obtain rfl := (readPair_of_partner hk hpartner ho).1 hread
      have hsame : [.closeBrace, .closeBracket].contains k =
          [.openBrace, .openBracket].contains o := by
        cases k <;> first
          | cases hpartner; rfl
          | cases hpartner
      have hnot : [.openBrace, .openBracket].contains k = false := by
        revert hk
        cases k <;> decide
      rw [List.countP_cons, hsame, hnot]
      rfl
    · have hnot : [.closeBrace, .closeBracket].contains k = false ∧
          [.openBrace, .openBracket].contains k = false := by
        revert hk
        cases k <;> decide
      rw [readPair_of_not_isPaired hk, Option.some_inj] at hread
      rw [hread, hnot.1, hnot.2]

/-- A group that an assignment follows counts as a pattern. -/
theorem IsAssigned.isFollowed (h : IsAssigned ts) : GroupRule.patterns.isFollowed 0 ts := by
  obtain ⟨inner, c, e, back, rfl, hinner, hc, he⟩ := h
  have hclosed := bracketsClose_of_unclosed hinner
  have hafter : afterGroup [.openBrace, .openBracket] [.closeBrace, .closeBracket] 0
      (inner ++ c :: e :: back) = some (e :: back) :=
    (afterGroup_eq_some_iff (by decide)).2 ⟨inner, c, rfl, hc, hclosed⟩
  rw [GroupRule.isFollowed]
  show (afterGroup [.openBrace, .openBracket] [.closeBrace, .closeBracket] 0 _).any _
  rw [hafter]
  simpa [GroupRule.patterns] using he

/-! ## Stages that decide token by token -/

namespace Stage

/-- The stage makes of each token what is left of it.  It lets out closing braces and brackets when
they come by, and opening ones and assignments alone. -/
structure KeepsGroups (S : Stage) : Prop where
  /-- Tokens are left as they are, apart from layout, marks and stars. -/
  content : ∀ s t h next,
    ((S.step s t h).given next).2.filterMap Token.content? = [t].filterMap Token.content?
  /-- Closing brackets may come out behind other tokens. -/
  releases : ∀ t, t.kind ∈ [.closeBrace, .closeBracket] → S.Releases t
  /-- Nothing comes between an opening bracket and the token before it. -/
  opens : ∀ t, t.kind ∈ [.openBrace, .openBracket] → S.Passes t
  /-- Nothing comes between an assignment and the token before it. -/
  assigns : ∀ t, t.kind ∈ [.equals, .define] → S.Passes t

/-- A stage that touches tokens of one kind only leaves groups as they are if those have nothing to
do with groups. -/
theorem KeepsGroups.of_passes {S : Stage} {k : TokenKind}
    (hk : k ∉ [.closeBrace, .closeBracket, .openBrace, .openBracket, .equals, .define])
    (hpass : ∀ t, t.kind ≠ k → S.Passes t)
    (hcontent : ∀ s t h next, t.kind = k →
      ((S.step s t h).given next).2.filterMap Token.content? = [t].filterMap Token.content?) :
    S.KeepsGroups where
  content := by
    intro s t h next
    by_cases ht : t.kind = k
    · exact hcontent s t h next ht
    · rw [hpass t ht]
  releases := fun t ht => (hpass t fun hkind => hk (by simp_all)).releases
  opens := fun t ht => hpass t fun hkind => hk (by simp_all)
  assigns := fun t ht => hpass t fun hkind => hk (by simp_all)

theorem passes_newlineCleanup (ht : t.kind ≠ .newline) : newlineCleanup.Passes t := by
  intro s h next
  obtain ⟨-, hkind⟩ | ⟨hout, -⟩ := step_newlineCleanup_cases s t h next
  · exact absurd hkind ht
  · exact hout

theorem passes_starOperator (ht : t.kind ≠ .multiplicative) : starOperator.Passes t := by
  intro s h next
  obtain ⟨-, hkind⟩ | hout := step_starOperator_cases s t h next
  · exact absurd hkind ht
  · exact hout

theorem releases_indentation (t : Token) : indentation.Releases t := by
  intro around h next
  obtain ⟨marks, hout, -⟩ := exists_step_indentation around t h next
  exact ⟨marks, hout⟩

theorem passes_indentation (hnewline : t.kind ≠ .newline) (hclose : t.kind ≠ .closeBrace) :
    indentation.Passes t := by
  intro around h next
  obtain ⟨marks, hout, -, hmarks⟩ := exists_step_indentation around t h next
  have hnone : marks = [] := by
    by_contra hsome
    exact (hmarks hsome).elim hnewline hclose
  rw [hout, hnone, List.nil_append]

/-- A newline that is dropped is not seen. -/
theorem filterMap_content?_of_newline (ht : t.kind = .newline) :
    [t].filterMap Token.content? = [] := by
  have hnone : t.content? = none := by
    rw [Token.content?, ht]
    rfl
  rw [List.filterMap_cons_none hnone, List.filterMap_nil]

theorem keepsGroups_newlineElision : newlineElision.KeepsGroups := by
  refine .of_passes (k := .newline) (by decide) (fun t ht => passes_newlineElision ht) ?_
  intro opened t h next ht
  obtain ⟨-, ⟨hout, -⟩ | ⟨hout, -⟩⟩ := step_newlineElision_cases opened t h next
  · rw [hout, filterMap_content?_of_newline ht, List.filterMap_nil]
  · rw [hout]

theorem keepsGroups_newlineCleanup : newlineCleanup.KeepsGroups := by
  refine .of_passes (k := .newline) (by decide) (fun t ht => passes_newlineCleanup ht) ?_
  intro s t h next ht
  obtain ⟨hout, -⟩ | ⟨hout, -⟩ := step_newlineCleanup_cases s t h next
  · rw [hout, filterMap_content?_of_newline ht, List.filterMap_nil]
  · rw [hout]

theorem keepsGroups_starOperator : starOperator.KeepsGroups := by
  refine .of_passes (k := .multiplicative) (by decide) (fun t ht => passes_starOperator ht) ?_
  intro s t h next ht
  obtain ⟨hout, -⟩ | hout := step_starOperator_cases s t h next
  · rw [hout, List.filterMap_cons, List.filterMap_cons, Token.content?_withKind_star ht]
  · rw [hout]

theorem keepsGroups_indentation : indentation.KeepsGroups where
  content := by
    intro around t h next
    obtain ⟨marks, hout, hmarks, -⟩ := exists_step_indentation around t h next
    have hnone : marks.filterMap Token.content? = [] := by
      refine List.filterMap_eq_nil_iff.2 fun u hu => ?_
      rcases hmarks u hu with rfl | rfl
      · rfl
      · rfl
    rw [hout, List.filterMap_append, hnone, List.nil_append]
  releases := fun t _ => releases_indentation t
  opens := fun t ht => passes_indentation (fun hkind => by simp [hkind] at ht)
    fun hkind => by simp [hkind] at ht
  assigns := fun t ht => passes_indentation (fun hkind => by simp [hkind] at ht)
    fun hkind => by simp [hkind] at ht

end Stage

variable {S : Stage} {lasts lasts' : List TokenKind}

/-- The rest of a group stays one, with an assignment behind it. -/
theorem IsAssigned.applyFrom (h : IsAssigned ts) (hS : S.KeepsGroups) (s : S.State)
    (past : History) : IsAssigned (S.applyFrom s past ts) := by
  obtain ⟨inner, c, e, back, rfl, hinner, hc, he⟩ := h
  obtain ⟨others, s₁, hstep, hclosed⟩ := (hS.releases c hc).exists_applyFrom_eq
    (S.runFrom s past (some c.kind) inner).1 (past.pushAll inner) (e :: back)
  obtain ⟨s₂, hback⟩ := (hS.assigns e he).exists_applyFrom_eq s₁ ((past.pushAll inner).push c) back
  have hnone : others.filterMap Token.content? = [] := by
    have hcontent := hS.content (S.runFrom s past (some c.kind) inner).1 c
      ((past.pushAll inner).push c) (some e.kind)
    rw [List.head?_cons, Option.map_some] at hstep
    rw [hstep, List.filterMap_append] at hcontent
    exact List.append_left_eq_self.1 hcontent
  rw [hback] at hclosed
  refine ⟨(S.runFrom s past (some c.kind) inner).2 ++ others, c, e,
    S.applyFrom s₂ (((past.pushAll inner).push c).push e) back, ?_, ?_, hc, he⟩
  · rw [Stage.applyFrom_append, List.append_assoc]
    exact congrArg (_ ++ ·) hclosed
  · refine (nestedIn_congr (fun _ hk => hk) (Token.filter_isBracket_of_content? ?_)).2 hinner
    rw [List.filterMap_append, hnone, List.append_nil, Stage.filterMap_runFrom hS.content]

/-- A bracket that an assignment follows stays one, with the same before it.  What may come right
before it afterwards has to be seen to. -/
theorem StandsAfter.apply (h : StandsAfter lasts origin g ts) (hS : S.KeepsGroups)
    (hg : g.kind ∈ [.openBrace, .openBracket])
    (hlast : ∀ front, front.filterMap Token.content? = origin.filterMap Token.content? →
      (∀ t ∈ front.getLast?, t.kind ∈ lasts) →
        ∀ t ∈ (S.run (some g.kind) front).2.getLast?, t.kind ∈ lasts') :
    StandsAfter lasts' origin g (S.apply ts) := by
  obtain ⟨front, rest, rfl, hlasts, hfront, hrest⟩ := h
  obtain ⟨s, past, hout⟩ := (hS.opens g hg).exists_apply_eq front rest
  refine ⟨_, _, hout, hlast front hfront hlasts, ?_, hrest.applyFrom hS s past⟩
  rw [← hfront]
  exact Stage.filterMap_runFrom hS.content ..

/-! ## Newlines that are dropped -/

namespace Stage

/-- If the last token may be dropped, what comes last is this one or the one before, which is then
of a kind that tells so. -/
theorem mem_getLast?_run_concat {next : Option TokenKind} {u : Token} {dropped : Prop}
    [Decidable dropped]
    (hstep : ((S.step (S.run (some t.kind) ts).1 t ((History.empty.pushAll ts).push t)).given
      next).2 = if dropped then [] else [t])
    (hlasts : dropped → ∀ v ∈ ts.getLast?, v.kind ∈ lasts)
    (hpass : ∀ v, v.kind ∈ lasts → S.Passes v)
    (hu : u ∈ (S.run next (ts ++ [t])).2.getLast?) : u = t ∨ u.kind ∈ lasts := by
  rw [snd_run_concat, hstep] at hu
  split at hu
  case isFalse =>
    rw [List.getLast?_concat] at hu
    exact .inl (Option.some.inj hu).symm
  case isTrue hdropped =>
    rw [List.append_nil,
      getLast?_run _ fun v hv => (hpass v (hlasts hdropped v hv)).releases] at hu
    exact .inr (hlasts hdropped u hu)

/-- Before a token that newlines may come before, only the token after which they come matters. -/
theorem isNeedless_some_iff {noBreakAfter noBreakBefore : List TokenKind}
    {before : Option TokenKind} {k : TokenKind} (hk : k ∉ noBreakBefore) :
    isNeedless noBreakAfter noBreakBefore before (some k) ↔ ∀ l ∈ before, l ∈ noBreakAfter := by
  rw [isNeedless, Option.all_some, Bool.or_eq_true, List.contains_iff_mem, or_iff_left hk]
  cases before with
  | none => simp
  | some l => simp

end Stage

/-- Only brackets matter for what brackets are open. -/
theorem foldl_openAfter_filter (ts : List Token) (opened : List TokenKind) :
    ((ts.filter fun t => t.kind.isBracket).map Token.kind).foldl openAfter opened =
      (ts.map Token.kind).foldl openAfter opened := by
  induction ts generalizing opened with
  | nil => rfl
  | cons t ts ih =>
    by_cases ht : t.kind.isBracket
    · rw [List.filter_cons_of_pos (by exact ht)]
      exact ih _
    · rw [List.filter_cons_of_neg (by exact ht), ih, List.map_cons, List.foldl_cons,
        openAfter_of_not_isBracket (Bool.not_eq_true _ ▸ ht)]

namespace StandsAfter

variable (hg : g.kind ∈ [.openBrace, .openBracket])

include hg

/-- A newline that is dropped outside of parentheses comes after what needs no newline. -/
theorem newlineElision (h : StandsAfter [.newline] origin g ts)
    (hparen : (openBrackets origin).head? ≠ some .openParen) :
    StandsAfter [.newline, .openBracket, .openBrace, .comma] origin g
      (Stage.newlineElision.apply ts) := by
  refine h.apply Stage.keepsGroups_newlineElision hg fun front hfront hlasts u hu => ?_
  cases front using List.reverseRecOn with
  | nil => simp [Stage.run, Stage.runFrom] at hu
  | append_singleton f nl =>
    have hnl : nl.kind = .newline := by simpa using hlasts nl List.getLast?_concat
    have hopened : openBrackets f = openBrackets origin := by
      rw [← openBrackets_append_newlines f (List.forall_mem_singleton.2 hnl), openBrackets,
        openBrackets, ← foldl_openAfter_filter origin,
        ← Token.filter_isBracket_of_content? hfront, foldl_openAfter_filter]
    have hafter : ∀ k ∈ [TokenKind.openBrace, .openBracket],
        k ∉ [TokenKind.newline, .closeBracket, .closeBrace, .comma, .pipes] := by decide
    have hcases : u = nl ∨ u.kind ∈ [.openBracket, .openBrace, .comma] := by
      refine Stage.mem_getLast?_run_concat (Stage.step_newlineElision_newline _ _ _ hnl)
        (fun hdropped v hv => ?_) (fun v hkind => ?_) hu
      · rw [History.lookBack_one_push_pushAll, Stage.isNeedless_some_iff (hafter g.kind hg),
          Stage.fst_run_newlineElision, hopened] at hdropped
        exact hdropped.resolve_right hparen v.kind (Option.mem_map_of_mem Token.kind hv)
      · exact Stage.passes_newlineElision fun hnl => by simp [hnl] at hkind
    rcases hcases with rfl | hkind
    · rw [hnl]
      decide
    · exact List.mem_cons_of_mem _ hkind

/-- Marks of blocks come before newlines, not between a newline and the bracket. -/
theorem indentation (h : StandsAfter lasts origin g ts) :
    StandsAfter lasts origin g (Stage.indentation.apply ts) := by
  refine h.apply Stage.keepsGroups_indentation hg fun front _ hlasts u hu => ?_
  rw [Stage.getLast?_run _ fun v _ => Stage.releases_indentation v] at hu
  exact hlasts u hu

theorem starOperator (hlasts : .multiplicative ∉ lasts) (h : StandsAfter lasts origin g ts) :
    StandsAfter lasts origin g (Stage.starOperator.apply ts) := by
  refine h.apply Stage.keepsGroups_starOperator hg fun front _ hkinds u hu => ?_
  have hpass : ∀ v ∈ front.getLast?, Stage.starOperator.Releases v := fun v hv =>
    (Stage.passes_starOperator fun hkind => hlasts (hkind ▸ hkinds v hv)).releases
  rw [Stage.getLast?_run _ hpass] at hu
  exact hkinds u hu

/-- A newline that is dropped later on comes after the start of a block or before a value. -/
theorem newlineCleanup (h : StandsAfter [.newline, .openBracket, .openBrace, .comma] origin g ts) :
    StandsAfter [.newline, .indent, .comma, .openBracket, .openBrace, .equals] origin g
      (Stage.newlineCleanup.apply ts) := by
  have hearlier : ∀ k ∈ [TokenKind.newline, .openBracket, .openBrace, .comma],
      k ∈ [TokenKind.newline, .indent, .comma, .openBracket, .openBrace, .equals] := by decide
  have hlater : ∀ k ∈ [TokenKind.indent, .equals],
      k ∈ [TokenKind.newline, .indent, .comma, .openBracket, .openBrace, .equals] := by decide
  refine h.apply Stage.keepsGroups_newlineCleanup hg fun front _ hlasts u hu => ?_
  cases front using List.reverseRecOn with
  | nil => simp [Stage.run, Stage.runFrom] at hu
  | append_singleton f t =>
    have ht := hlasts t List.getLast?_concat
    by_cases hnl : t.kind = .newline
    · have hafter : ∀ k ∈ [TokenKind.openBrace, .openBracket],
          k ∉ [TokenKind.elseWord, .catchWord, .finallyWord, .dedent] := by decide
      have hcases : u = t ∨ u.kind ∈ [.indent, .equals] := by
        refine Stage.mem_getLast?_run_concat (Stage.step_newlineCleanup_newline _ _ _ hnl)
          (fun hdropped v hv => ?_) (fun v hkind => ?_) hu
        · rw [History.lookBack_one_push_pushAll, Stage.isNeedless_some_iff (hafter g.kind hg)]
            at hdropped
          exact hdropped v.kind (Option.mem_map_of_mem Token.kind hv)
        · exact Stage.passes_newlineCleanup fun hnl => by simp [hnl] at hkind
      rcases hcases with rfl | hkind
      · exact hearlier _ ht
      · exact hlater _ hkind
    · have hpass : ∀ v ∈ (f ++ [t]).getLast?, Stage.newlineCleanup.Releases v := by
        intro v hv
        rw [List.getLast?_concat] at hv
        obtain rfl := Option.some.inj hv
        exact (Stage.passes_newlineCleanup hnl).releases
      rw [Stage.getLast?_run _ hpass] at hu
      exact hearlier _ (hlasts u hu)

end StandsAfter

/-! ## Marks that are put in -/

/-- The rest of a group stays one when lists of parameters are marked. -/
theorem IsAssigned.insertMarks (h : IsAssigned ts) (before : Option TokenKind) :
    IsAssigned (GroupRule.parameters.insertMarks before ts) := by
  obtain ⟨inner, c, e, back, rfl, hinner, hc, he⟩ := h
  have hmark : ∀ a, (Token.mark GroupRule.parameters.mark a).content? = none := fun _ => rfl
  obtain ⟨vs, hout, hcontent, -⟩ :=
    GroupRule.exists_insertMarks_append hmark before inner (c :: e :: back)
  have hopens {t : Token} (ht : t.kind ≠ .openParen) : t.kind ∉ GroupRule.parameters.opens := by
    simpa [GroupRule.parameters] using ht
  rw [hout, GroupRule.insertMarks_cons_of_not_opens (hopens fun hkind => by simp [hkind] at hc),
    GroupRule.insertMarks_cons_of_not_opens (hopens fun hkind => by simp [hkind] at he)]
  refine ⟨vs, c, e, _, rfl, ?_, hc, he⟩
  exact (nestedIn_congr (fun _ hk => hk) (Token.filter_isBracket_of_content? hcontent)).2 hinner

namespace StandsAfter

variable (hg : g.kind ∈ [.openBrace, .openBracket])

include hg

theorem functionLiteral (h : StandsAfter lasts origin g ts) :
    StandsAfter lasts origin g (Stage.functionLiteral.apply ts) := by
  obtain ⟨front, rest, rfl, hlasts, hfront, hrest⟩ := h
  have hmark : ∀ a, (Token.mark GroupRule.parameters.mark a).content? = none := fun _ => rfl
  obtain ⟨vs, hout, hcontent, hlast⟩ :=
    GroupRule.exists_insertMarks_append hmark none front (g :: rest)
  have hopens : g.kind ∉ GroupRule.parameters.opens := by
    simp only [List.mem_cons, List.not_mem_nil, or_false] at hg
    rcases hg with hg | hg <;> simp [GroupRule.parameters, hg]
  rw [Stage.functionLiteral, Stage.apply_markGroups, hout,
    GroupRule.insertMarks_cons_of_not_opens hopens]
  exact ⟨vs, _, rfl, hlast ▸ hlasts, hcontent.trans hfront, hrest.insertMarks _⟩

/-- The bracket is marked, unless it comes after a bracket or the sign of an assignment, and that is
the last before it of what is neither layout nor a mark. -/
theorem destructuring
    (h : StandsAfter [.newline, .indent, .comma, .openBracket, .openBrace, .equals] origin g ts) :
    ∃ before v after, Stage.destructuring.apply ts = before ++ v :: g :: after ∧
      (v = .mark .patternMark g.span.start ∨
        v.kind ∈ [.openBracket, .openBrace, .equals] ∧
          (origin.filterMap Token.content?).getLast? = some v) := by
  obtain ⟨front, rest, rfl, hlasts, hfront, hrest⟩ := h
  have hmark : ∀ a, (Token.mark GroupRule.patterns.mark a).content? = none := fun _ => rfl
  obtain ⟨vs, hout, -, hlast⟩ :=
    GroupRule.exists_insertMarks_append hmark none front (g :: rest)
  have hdue (before : Option TokenKind) : GroupRule.patterns.isDue before g rest =
      GroupRule.patterns.eligible before := by
    have hopens : GroupRule.patterns.opens.contains g.kind := by
      simpa [GroupRule.patterns] using hg
    rw [GroupRule.isDue, hopens, hrest.isFollowed, Bool.true_and, Bool.and_true]
  rw [Stage.destructuring, Stage.apply_markGroups, hout, GroupRule.insertMarks, hdue,
    Option.or_none]
  by_cases heligible : GroupRule.patterns.eligible (front.getLast?.map Token.kind)
  · rw [if_pos heligible]
    exact ⟨vs, _, _, rfl, .inl rfl⟩
  · rw [if_neg heligible, List.nil_append]
    cases hfirst : front.getLast? with
    | none => simp [hfirst, GroupRule.patterns] at heligible
    | some u =>
      obtain ⟨before, rfl⟩ := List.getLast?_eq_some_iff.1 (hlast.trans hfirst)
      obtain ⟨before', rfl⟩ := List.getLast?_eq_some_iff.1 hfirst
      have hkind : u.kind ∈ [.openBracket, .openBrace, .equals] := by
        have hall : ∀ k ∈ [.newline, .indent, .comma, .openBracket, .openBrace, .equals],
            ¬ GroupRule.patterns.eligible (some k) → k ∈ [.openBracket, .openBrace, .equals] := by
          decide
        rw [hfirst] at heligible
        exact hall u.kind (hlasts u hfirst) heligible
      refine ⟨before, u, _, by rw [List.append_assoc, List.singleton_append], .inr ⟨hkind, ?_⟩⟩
      have hcontent : u.content? = some u := by
        have hall : ∀ k ∈ [TokenKind.openBracket, .openBrace, .equals],
            k ∉ Token.unseenKinds ∧ k ≠ .star := by decide
        exact Token.content?_eq_some (hall u.kind hkind).1 (hall u.kind hkind).2
      rw [← hfront, List.filterMap_append, List.filterMap_cons_some hcontent]
      exact List.getLast?_concat

end StandsAfter

end ScriptReader
