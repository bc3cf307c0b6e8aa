import Mathlib.Data.List.DropRight
import ScriptReader.Lexeme
import ScriptReader.Proofs.Stage.Runs
import ScriptReader.Proofs.Token.Sites

/-!
# Which newlines are dropped at first

The first stage that drops newlines looks at the tokens beside a newline as they come in, some of
which are newlines that it drops as well.  What counts in the end are the tokens beside a newline
that has been kept.  Those after it are the same in either view, but those before it need not be.

## Main Definitions

* `openBrackets` — the brackets that are open after some tokens
* `Separates` — a newline between some tokens and others separates statements
* `ElidesNewlines` — a list of tokens without the newlines that separate nothing
* `StartsAfterStatement` — each newline comes after something that may end a statement
* `HidesStart` — newlines in a row hide from the last of them that it does not

## Main Statements

* `Stage.apply_newlineElision` — the newlines that separate something are kept, and all other tokens
* `Stage.elidesNewlines_newlineElision` — what follows a newline that has been kept, and what
  encloses it
* `Stage.newlineElision_idempotent_iff` — when the same can be said of what precedes it, which is
  when the stage is idempotent

## Design Notes

Of newlines in a row only the last can be kept, since each of the others comes before a newline.
What comes before the last one is then a newline too, after which nothing speaks against it.  The
newlines ahead of it so hide a bracket or a comma from it, or the start of the source.
-/

namespace ScriptReader

open Stage (newlineElision)

/-- The brackets that are open after some tokens, the innermost first.  A closing bracket closes
only an opening one of its own type. -/
def openBrackets (ts : List Token) : List TokenKind := (ts.map Token.kind).foldl openAfter []

/-- A newline separates the tokens `front` from the tokens `back`. -/
structure Separates (front back : List Token) : Prop where
  /-- It comes after something that may end a statement. -/
  before : ∃ t ∈ front.getLast?, t.kind ∉ [.openBracket, .openBrace, .comma]
  /-- It comes before something that may begin one. -/
  after : ∃ t ∈ back.head?, t.kind ∉ [.newline, .closeBracket, .closeBrace, .comma, .pipes]
  /-- It does not stand directly in parentheses. -/
  site : (openBrackets front).head? ≠ some .openParen

instance (front back : List Token) : Decidable (Separates front back) :=
  decidable_of_iff
    ((∃ t ∈ front.getLast?, t.kind ∉ [.openBracket, .openBrace, .comma]) ∧
      (∃ t ∈ back.head?, t.kind ∉ [.newline, .closeBracket, .closeBrace, .comma, .pipes]) ∧
      (openBrackets front).head? ≠ some .openParen)
    ⟨fun h => ⟨h.1, h.2.1, h.2.2⟩, fun h => ⟨h.before, h.after, h.site⟩⟩

/-- The tokens `us` are the tokens `ts` without the newlines that separate nothing. -/
structure ElidesNewlines (ts us : List Token) : Prop where
  /-- The newlines that separate something are kept, and so are all other tokens. -/
  kept : us = (ts.zipIdx.filter fun p =>
    p.1.kind = .newline → Separates (ts.take p.2) (ts.drop (p.2 + 1))).map Prod.fst
  /-- Nothing but newlines is dropped. -/
  others : us.filter (fun t => t.kind ≠ .newline) = ts.filter fun t => t.kind ≠ .newline
  /-- After each newline comes something, which is no newline either. -/
  after : ∀ front nl back, us = front ++ nl :: back → nl.kind = .newline →
    ∃ t ∈ back.head?, t.kind ∉ [.newline, .closeBracket, .closeBrace, .comma, .pipes]
  /-- No newline stands directly in parentheses. -/
  site : ∀ front nl back, us = front ++ nl :: back → nl.kind = .newline →
    (openBrackets front).head? ≠ some .openParen
  /-- Of newlines in a row the last one is kept if one in their place would separate something. -/
  last : ∀ front run nl back, ts = front ++ run ++ nl :: back →
    (∀ t ∈ run, t.kind = .newline) → nl.kind = .newline → Separates front back →
      ∃ front' back', us = front' ++ nl :: back' ∧ front'.Sublist front ∧ back'.Sublist back

/-- Several newlines in a row come where a single one would separate nothing, as it would come at
the start of the source or after a bracket or a comma.  Nothing but that speaks against the last of
them. -/
def HidesStart (ts : List Token) : Prop :=
  ∃ front run nl back, ts = front ++ run ++ nl :: back ∧
    run ≠ [] ∧ (∀ t ∈ run, t.kind = .newline) ∧ nl.kind = .newline ∧
    (∀ t ∈ front.getLast?, t.kind ∈ [.openBracket, .openBrace, .comma]) ∧
    (∃ t ∈ back.head?, t.kind ∉ [.newline, .closeBracket, .closeBrace, .comma, .pipes]) ∧
    (openBrackets front).head? ≠ some .openParen

/-- Every newline comes after something that may end a statement. -/
def StartsAfterStatement (ts : List Token) : Prop :=
  ∀ front nl back, ts = front ++ nl :: back → nl.kind = .newline →
    ∃ t ∈ front.getLast?, t.kind ∉ [.openBracket, .openBrace, .comma]

variable {ts us front back run : List Token} {t nl : Token}

/-! ## Newlines between other tokens -/

theorem openBrackets_append (ts us : List Token) :
    openBrackets (ts ++ us) = (us.map Token.kind).foldl openAfter (openBrackets ts) := by
  rw [openBrackets, List.map_append, List.foldl_append]
  rfl

/-- Newlines open and close nothing. -/
theorem openBrackets_append_newlines (ts : List Token) (hrun : ∀ t ∈ run, t.kind = .newline) :
    openBrackets (ts ++ run) = openBrackets ts := by
  rw [openBrackets_append]
  refine foldl_openAfter_of_not_isBracket ?_
  rw [List.forall_mem_map]
  intro t ht
  rw [hrun t ht]
  rfl

/-- What comes before newlines in a row is before them or is a newline. -/
theorem separates_append_newlines (hrun : ∀ t ∈ run, t.kind = .newline) :
    Separates (front ++ run) back ↔
      (run = [] → ∃ t ∈ front.getLast?, t.kind ∉ [.openBracket, .openBrace, .comma]) ∧
      (∃ t ∈ back.head?, t.kind ∉ [.newline, .closeBracket, .closeBrace, .comma, .pipes]) ∧
      (openBrackets front).head? ≠ some .openParen := by
  have hbefore : (∃ t ∈ (front ++ run).getLast?, t.kind ∉ [.openBracket, .openBrace, .comma]) ↔
      (run = [] → ∃ t ∈ front.getLast?, t.kind ∉ [.openBracket, .openBrace, .comma]) := by
    cases run using List.reverseRecOn with
    | nil => simp
    | append_singleton run nl =>
      have hnl : nl.kind = .newline := hrun nl (by simp)
      simp [← List.append_assoc, hnl]
  rw [← openBrackets_append_newlines front hrun, ← hbefore]
  exact ⟨fun h => ⟨h.before, h.after, h.site⟩, fun h => ⟨h.1, h.2.1, h.2.2⟩⟩

/-- Any list ends in newlines, perhaps none, that come after no newline. -/
theorem exists_append_newlines (ts : List Token) :
    ∃ front run, ts = front ++ run ∧ (∀ t ∈ run, t.kind = .newline) ∧
      ∀ t ∈ front.getLast?, t.kind ≠ .newline := by
  refine ⟨ts.rdropWhile (·.kind = .newline), ts.rtakeWhile (·.kind = .newline), ?_, ?_, ?_⟩
  · rw [List.rdropWhile_append_rtakeWhile]
  · intro t ht
    simpa using List.mem_rtakeWhile_imp ht
  · intro t ht
    obtain ⟨hne, rfl⟩ := List.mem_getLast?_eq_getLast ht
    simpa using List.rdropWhile_last_not _ _ hne

namespace Stage

/-! ## The state in which a token comes by -/

theorem fst_runFrom_newlineElision (opened : List TokenKind) (h : History)
    (next : Option TokenKind) (ts : List Token) :
    (newlineElision.runFrom opened h next ts).1 =
      (ts.map Token.kind).foldl openAfter opened := by
  induction ts generalizing opened h with
  | nil => rfl
  | cons t ts ih =>
    have hstep := (step_newlineElision_cases opened t (h.push t)
      ((ts.head?.map Token.kind).or next)).1
    rw [runFrom_cons newlineElision opened h]
    simp only [ih, hstep]
    rfl

/-- The state tells which brackets are open. -/
theorem fst_run_newlineElision (next : Option TokenKind) (ts : List Token) :
    (newlineElision.run next ts).1 = openBrackets ts :=
  fst_runFrom_newlineElision [] .empty next ts

/-- The same brackets are open in what has been let out. -/
theorem foldl_snd_runFrom_newlineElision (opened : List TokenKind) (h : History)
    (next : Option TokenKind) (ts : List Token) :
    ((newlineElision.runFrom opened h next ts).2.map Token.kind).foldl openAfter opened =
      (newlineElision.runFrom opened h next ts).1 := by
  induction ts generalizing opened h with
  | nil => rfl
  | cons t ts ih =>
    obtain ⟨hstate, ⟨hout, hkind⟩ | ⟨hout, -⟩⟩ := step_newlineElision_cases opened t (h.push t)
      ((ts.head?.map Token.kind).or next)
    · rw [runFrom_cons newlineElision opened h]
      rw [hkind, openAfter_of_not_isBracket rfl] at hstate
      simp only [hstate, hout]
      exact ih opened (h.push t)
    · rw [runFrom_cons newlineElision opened h]
      simp only [hstate, hout]
      exact ih (openAfter opened t.kind) (h.push t)

theorem openBrackets_snd_run (next : Option TokenKind) (ts : List Token) :
    openBrackets (newlineElision.run next ts).2 = openBrackets ts := by
  rw [← fst_run_newlineElision next ts]
  exact foldl_snd_runFrom_newlineElision [] .empty next ts

theorem passes_newlineElision (ht : t.kind ≠ .newline) : newlineElision.Passes t := by
  intro opened h next
  obtain ⟨-, ⟨-, hkind⟩ | ⟨hout, -⟩⟩ := step_newlineElision_cases opened t h next
  · exact absurd hkind ht
  · exact hout

/-- Something is there, and of none of the given kinds. -/
theorem not_all_contains_iff {kinds : List TokenKind} {o : Option Token} :
    ¬ (o.map Token.kind).all kinds.contains ↔ ∃ t ∈ o, t.kind ∉ kinds := by
  cases o <;> simp

/-- A token is kept unless it is a newline that does not separate what comes before it from what
comes after it. -/
theorem snd_step_newlineElision (t : Token) (front back : List Token) :
    ((newlineElision.step (openBrackets front) t ((History.empty.pushAll front).push t)).given
        (back.head?.map Token.kind)).2 =
      if t.kind = .newline → Separates front back then [t] else [] := by
  by_cases ht : t.kind = .newline
  · have hneeded : (t.kind = .newline → Separates front back) ↔
        ¬ (isNeedless [.openBracket, .openBrace, .comma]
            [.newline, .closeBracket, .closeBrace, .comma, .pipes]
            (front.getLast?.map Token.kind) (back.head?.map Token.kind) ∨
          (openBrackets front).head? = some .openParen) := by
      rw [imp_iff_right ht, not_or, isNeedless, Bool.or_eq_true, not_or, not_all_contains_iff,
        not_all_contains_iff]
      exact ⟨fun h => ⟨⟨h.before, h.after⟩, h.site⟩, fun h => ⟨h.1.1, h.1.2, h.2⟩⟩
    rw [step_newlineElision_newline _ _ _ ht, History.lookBack_one_push_pushAll]
    simp only [hneeded, ite_not]
  · exact (passes_newlineElision ht _ _ _).trans (if_pos fun hkind => absurd hkind ht).symm

/-- From a place on, the newlines that separate something are kept, and all other tokens. -/
theorem applyFrom_newlineElision (front ts : List Token) :
    newlineElision.applyFrom (openBrackets front) (History.empty.pushAll front) ts =
      ((ts.zipIdx front.length).filter fun p => p.1.kind = .newline →
        Separates ((front ++ ts).take p.2) ((front ++ ts).drop (p.2 + 1))).map Prod.fst := by
  induction ts generalizing front with
  | nil => rfl
  | cons t ts ih =>
    have hrest := ih (front ++ [t])
    rw [openBrackets_append, History.pushAll, List.foldl_append, List.length_append,
      List.append_assoc] at hrest
    have htake : (front ++ t :: ts).take front.length = front := List.take_left
    have hdrop : (front ++ t :: ts).drop (front.length + 1) = ts := by simp
    obtain ⟨hstate, -⟩ := step_newlineElision_cases (openBrackets front) t
      ((History.empty.pushAll front).push t) (ts.head?.map Token.kind)
    rw [applyFrom_cons newlineElision (openBrackets front), snd_step_newlineElision, hstate,
      List.zipIdx_cons]
    by_cases hkept : t.kind = .newline → Separates front ts
    · rw [if_pos hkept,
        List.filter_cons_of_pos (by simpa only [htake, hdrop, decide_eq_true_eq] using hkept)]
      exact congrArg (t :: ·) hrest
    · rw [if_neg hkept,
        List.filter_cons_of_neg (by simpa only [htake, hdrop, decide_eq_true_eq] using hkept)]
      exact hrest

/-- **The newlines that separate something are kept, and all other tokens.** -/
theorem apply_newlineElision (ts : List Token) :
    newlineElision.apply ts = (ts.zipIdx.filter fun p =>
      p.1.kind = .newline → Separates (ts.take p.2) (ts.drop (p.2 + 1))).map Prod.fst :=
  applyFrom_newlineElision [] ts

/-! ## Newlines that have been kept -/

/-- Before a newline that comes after others, these others have been dropped. -/
theorem snd_run_append_newlines (front : List Token) (hrun : ∀ t ∈ run, t.kind = .newline) :
    (newlineElision.run (some .newline) (front ++ run)).2 =
      (newlineElision.run (some .newline) front).2 := by
  induction run using List.reverseRecOn with
  | nil => rw [List.append_nil]
  | append_singleton run t ih =>
    obtain ⟨hrun, ht⟩ := List.forall_mem_append.1 hrun
    have hkind : t.kind = .newline := ht t (List.mem_singleton_self t)
    have hdropped (us : List Token) : ¬ (t.kind = .newline → Separates us [t]) := by
      intro hsep
      obtain ⟨u, hu, hother⟩ := (hsep hkind).after
      obtain rfl := Option.some.inj hu
      exact hother (hkind ▸ List.mem_cons_self)
    have hstep := snd_step_newlineElision t (front ++ run) [t]
    rw [if_neg (hdropped _), List.head?_cons, Option.map_some, hkind] at hstep
    rw [← List.append_assoc, snd_run_concat, fst_run_newlineElision, hkind]
    exact (congrArg _ hstep).trans ((List.append_nil _).trans (ih hrun))

/-- What comes last before a newline that has been kept is the last token that is no newline. -/
theorem getLast?_snd_run (hlast : ∀ t ∈ front.getLast?, t.kind ≠ .newline)
    (hrun : ∀ t ∈ run, t.kind = .newline) :
    (newlineElision.run (some .newline) (front ++ run)).2.getLast? = front.getLast? := by
  rw [snd_run_append_newlines front hrun]
  exact getLast?_run _ fun t ht => (passes_newlineElision (hlast t ht)).releases

/-- A newline that has been kept was there, where it separated something.  What is around it now is
what is left of what was around it. -/
theorem exists_split_newlineElision (hout : newlineElision.apply ts = front ++ nl :: back)
    (hnl : nl.kind = .newline) :
    ∃ front' back', ts = front' ++ nl :: back' ∧ Separates front' back' ∧
      (newlineElision.run (some .newline) front').2 = front ∧ back.Sublist back' ∧
      back.head? = back'.head? := by
  obtain ⟨front', back', rfl, hfront, hkept, s, hback⟩ :=
    exists_letsBy_of_applyFrom_eq sublist_step_newlineElision (fun _ _ => rfl) hout
  have hsep : Separates front' back' := by
    have hstep := snd_step_newlineElision nl front' back'
    rw [← fst_run_newlineElision (some nl.kind)] at hstep
    by_contra hnot
    rw [if_neg fun himp => hnot (himp hnl)] at hstep
    exact List.cons_ne_nil _ _ (hkept.symm.trans hstep)
  refine ⟨front', back', rfl, hsep, hnl ▸ hfront, ?_, ?_⟩
  · rw [hback]
    exact sublist_applyFrom_of_step sublist_step_newlineElision (fun _ _ => rfl) _ _ _
  · obtain ⟨u, hu, hother⟩ := hsep.after
    obtain ⟨rest, rfl⟩ := List.head?_eq_some_iff.1 hu
    have hkind : u.kind ≠ .newline := fun hkind => hother (hkind ▸ List.mem_cons_self)
    obtain ⟨s', hrest⟩ := (passes_newlineElision hkind).exists_applyFrom_eq s _ rest
    rw [hback, hrest]
    rfl

/-- A newline that separates something is kept, behind what is left of what is before it. -/
theorem exists_apply_newlineElision_append (hnl : nl.kind = .newline)
    (hsep : Separates front back) :
    ∃ back', newlineElision.apply (front ++ nl :: back) =
      (newlineElision.run (some .newline) front).2 ++ nl :: back' ∧ back'.Sublist back := by
  have hstep := snd_step_newlineElision nl front back
  rw [if_pos fun _ => hsep] at hstep
  rw [apply_append, List.head?_cons, Option.map_some, hnl, fst_run_newlineElision,
    applyFrom_cons newlineElision (openBrackets front), hstep]
  exact ⟨_, rfl, sublist_applyFrom_of_step sublist_step_newlineElision (fun _ _ => rfl) _ _ _⟩

/-- **Only newlines are dropped.**  One that is kept comes before something that may begin a
statement and does not stand directly in parentheses.  Of newlines in a row the last one is kept
unless a single one would be dropped. -/
theorem elidesNewlines_newlineElision (ts : List Token) :
    ElidesNewlines ts (newlineElision.apply ts) where
  kept := apply_newlineElision ts
  others := by
    have hkeeps : newlineElision.Keeps (· ≠ .newline) := keeps_newlineElision rfl
    exact hkeeps ts
  after := by
    intro front nl back hout hnl
    obtain ⟨front', back', -, hsep, -, -, hhead⟩ := exists_split_newlineElision hout hnl
    rw [hhead]
    exact hsep.after
  site := by
    intro front nl back hout hnl
    obtain ⟨front', back', -, hsep, hfront, -⟩ := exists_split_newlineElision hout hnl
    rw [← hfront, openBrackets_snd_run]
    exact hsep.site
  last := by
    rintro front run nl back rfl hrun hnl hsep
    have hlast : Separates (front ++ run) back :=
      (separates_append_newlines hrun).2 ⟨fun _ => hsep.before, hsep.after, hsep.site⟩
    obtain ⟨back', hout, hback⟩ := exists_apply_newlineElision_append hnl hlast
    rw [snd_run_append_newlines front hrun] at hout
    exact ⟨_, back', hout, sublist_runFrom_of_step sublist_step_newlineElision _ _ _ front, hback⟩

/-! ## What precedes a newline -/

/-- A newline that has been kept comes after something that may end a statement, unless newlines in
a row hid from it that it does not. -/
theorem startsAfterStatement_apply_iff :
    StartsAfterStatement (newlineElision.apply ts) ↔ ¬ HidesStart ts := by
  constructor
  · rintro hstarts ⟨front, run, nl, back, rfl, hrun, hnewlines, hnl, hbefore, hafter, hsite⟩
    have hsep : Separates (front ++ run) back :=
      (separates_append_newlines hnewlines).2 ⟨fun hnil => absurd hnil hrun, hafter, hsite⟩
    obtain ⟨back', hout, -⟩ := exists_apply_newlineElision_append hnl hsep
    have hlast : ∀ t ∈ front.getLast?, t.kind ≠ .newline := by
      intro t ht hkind
      have hmem := hbefore t ht
      rw [hkind] at hmem
      exact absurd hmem (by decide)
    obtain ⟨t, ht, hother⟩ := hstarts _ nl back' hout hnl
    rw [getLast?_snd_run hlast hnewlines] at ht
    exact hother (hbefore t ht)
  · intro hhides front nl back hout hnl
    obtain ⟨front', back', rfl, hsep, hfront, -⟩ := exists_split_newlineElision hout hnl
    obtain ⟨start, run, rfl, hnewlines, hlast⟩ := exists_append_newlines front'
    have hfirst : front.getLast? = start.getLast? := by
      rw [← hfront]
      exact getLast?_snd_run hlast hnewlines
    rw [hfirst]
    obtain ⟨hbefore, hafter, hsite⟩ := (separates_append_newlines hnewlines).1 hsep
    by_cases hrun : run = []
    · exact hbefore hrun
    · by_contra hnone
      refine hhides ⟨start, run, nl, back', rfl, hrun, hnewlines, hnl, ?_, hafter, hsite⟩
      intro t ht
      by_contra hother
      exact hnone ⟨t, ht, hother⟩

/-- A list is left as it is if all its newlines separate something. -/
theorem apply_newlineElision_eq_self_iff :
    newlineElision.apply us = us ↔
      ∀ front nl back, us = front ++ nl :: back → nl.kind = .newline → Separates front back := by
  constructor
  · rintro hself front nl back rfl hnl
    have hall := congrArg List.length ((apply_newlineElision _).symm.trans hself)
    have hzip : (front ++ nl :: back).zipIdx.length = (front ++ nl :: back).length :=
      List.length_zipIdx
    rw [List.length_map, ← hzip, List.length_filter_eq_length_iff] at hall
    have hmem : (nl, front.length) ∈ (front ++ nl :: back).zipIdx :=
      List.mk_mem_zipIdx_iff_getElem?.2 (by simp)
    simpa using of_decide_eq_true (hall _ hmem) hnl
  · intro hall
    rw [apply_newlineElision, List.filter_eq_self.2, List.zipIdx_map_fst]
    rintro ⟨t, i⟩ hmem
    obtain ⟨hi, rfl⟩ := List.getElem?_eq_some_iff.1 (List.mk_mem_zipIdx_iff_getElem?.1 hmem)
    refine decide_eq_true fun hnl => hall _ us[i] _ ?_ hnl
    rw [List.getElem_cons_drop, List.take_append_drop]

/-- What has been made is left as it is if each newline comes after something that may end a
statement. -/
theorem apply_apply_newlineElision_iff :
    newlineElision.apply (newlineElision.apply ts) = newlineElision.apply ts ↔
      StartsAfterStatement (newlineElision.apply ts) := by
  rw [apply_newlineElision_eq_self_iff]
  refine forall_congr' fun front => forall_congr' fun nl => forall_congr' fun back =>
    forall_congr' fun hout => forall_congr' fun hnl => ?_
  obtain ⟨front', back', rfl, hsep, rfl, -, hhead⟩ := exists_split_newlineElision hout hnl
  refine ⟨Separates.before, fun hbefore => ⟨hbefore, ?_, ?_⟩⟩
  · rw [hhead]
    exact hsep.after
  · rw [openBrackets_snd_run]
    exact hsep.site

/-- No newlines are left in a row. -/
theorem not_hidesStart_apply : ¬ HidesStart (newlineElision.apply ts) := by
  rintro ⟨front, run, nl, back, hout, hrun, hnewlines, hnl, -⟩
  obtain ⟨first, rest, rfl⟩ := List.exists_cons_of_ne_nil hrun
  obtain ⟨hfirst, hrest⟩ := List.forall_mem_cons.1 hnewlines
  rw [List.append_assoc, List.cons_append] at hout
  obtain ⟨front', back', -, hsep, -, -, hhead⟩ := exists_split_newlineElision hout hfirst
  obtain ⟨u, hu, hother⟩ := hsep.after
  have hkind : u.kind = .newline := by
    rw [← hhead] at hu
    cases rest with
    | nil => exact (Option.some.inj hu) ▸ hnl
    | cons v rest => exact (Option.some.inj hu) ▸ hrest v List.mem_cons_self
  exact hother (hkind ▸ List.mem_cons_self)

/-- **A newline that has been kept comes after something that may end a statement, and the stage is
idempotent, unless newlines in a row hide from the last of them what is before the first.**  Applied
twice the stage leaves nothing to be done. -/
theorem newlineElision_idempotent_iff (ts : List Token) :
    (StartsAfterStatement (newlineElision.apply ts) ↔ ¬ HidesStart ts) ∧
      (newlineElision.apply (newlineElision.apply ts) = newlineElision.apply ts ↔
        ¬ HidesStart ts) ∧
      newlineElision.apply (newlineElision.apply (newlineElision.apply ts)) =
        newlineElision.apply (newlineElision.apply ts) := by
  have hiff {us : List Token} : newlineElision.apply (newlineElision.apply us) =
      newlineElision.apply us ↔ ¬ HidesStart us :=
    apply_apply_newlineElision_iff.trans startsAfterStatement_apply_iff
  exact ⟨startsAfterStatement_apply_iff, hiff, hiff.2 not_hidesStart_apply⟩

/-- A comment on a line of its own leaves two newlines after the bracket, of which one is kept. -/
theorem not_idempotent_newlineElision_comment :
    let ts := trivia.apply (lex "[\n# note\nx")
    ¬ StartsAfterStatement (newlineElision.apply ts) ∧
      newlineElision.apply (newlineElision.apply ts) ≠ newlineElision.apply ts := by
  have hout : newlineElision.apply (trivia.apply (lex "[\n# note\nx")) =
      [{ kind := .openBracket, text := "[", span := ⟨0, 1⟩ },
        { kind := .newline, text := "\n", span := ⟨8, 9⟩ },
        { kind := .identifier, text := "x", span := ⟨9, 10⟩ }] := by
    decide +kernel
  intro ts
  rw [hout]
  constructor
  · intro hstarts
    obtain ⟨t, ht, hother⟩ := hstarts [_] _ _ rfl rfl
    obtain rfl := Option.some.inj ht
    exact hother (by decide)
  · decide

end Stage

end ScriptReader
