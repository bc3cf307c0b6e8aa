import ScriptReader.Proofs.Rich.Expansion
import ScriptReader.Proofs.Stage.Groups
import ScriptReader.Proofs.Token.Moved

/-!
# Stages and where tokens stand

No stage decides anything by where a token stands.  What it makes of tokens that have been moved is
what it makes of the tokens, moved; only the code in rich strings brings in tokens from elsewhere,
and these must have room where they are put in.

## Main Definitions

* `Stage.CommutesWith` — a stage makes moved tokens of moved tokens
* `Pipeline.FromCode` — a token that one of the stages of a pipeline puts in for code

## Main Statements

* `Stage.commutesWith_of_step` — it is enough to look at one token at a time
* `Pipeline.forall₂_isMoved_apply` — pipelines commute with moving the source

## Design Notes

Marks are put at an end of a token or where the newest token ends, so that they are moved with it.
At the very start there is no newest token and a mark would not be moved, but there no block is open
that could end.
-/

namespace ScriptReader

variable {d : Offset} {t u : Token} {ts us : List Token} {h h' : History}

/-- The newest token, if any, has been moved. -/
def History.IsMoved (d : Offset) (h h' : History) : Prop :=
  Option.Rel (Token.IsMoved d) h.current h'.current

namespace History.IsMoved

theorem kind_eq (hmoved : h.IsMoved d h') :
    h'.current.map Token.kind = h.current.map Token.kind := by
  unfold IsMoved at hmoved
  generalize h.current = before at hmoved ⊢
  generalize h'.current = before' at hmoved ⊢
  cases hmoved with
  | none => rfl
  | some ht => exact congrArg some ht.kind

theorem push (h h' : History) (ht : t.IsMoved d u) : (h.push t).IsMoved d (h'.push u) := by
  rw [IsMoved, current_push, current_push]
  exact .some ht

end History.IsMoved

namespace Stage

/-- Of tokens that have been moved the stage makes what it makes of the tokens, moved. -/
def CommutesWith (S : Stage) (d : Offset) : Prop :=
  ∀ {ts us : List Token}, List.Forall₂ (Token.IsMoved d) ts us →
    List.Forall₂ (Token.IsMoved d) (S.apply ts) (S.apply us)

theorem head?_kind_eq (hts : List.Forall₂ (Token.IsMoved d) ts us) :
    us.head?.map Token.kind = ts.head?.map Token.kind := by
  cases hts with
  | nil => rfl
  | cons ht _ => exact congrArg some ht.kind

/-- It is enough that each step does so, and that what is let out at the end does. -/
theorem commutesWith_of_step {S : Stage}
    (hstep : ∀ s t u (h h' : History) next, t.IsMoved d u → h.IsMoved d h' →
      ((S.step s u (h'.push u)).given next).1 = ((S.step s t (h.push t)).given next).1 ∧
        List.Forall₂ (Token.IsMoved d) ((S.step s t (h.push t)).given next).2
          ((S.step s u (h'.push u)).given next).2)
    (hend : ∀ s (h h' : History), h.IsMoved d h' → (h.current = none → s = S.start) →
      List.Forall₂ (Token.IsMoved d) (S.atEnd s h) (S.atEnd s h')) :
    S.CommutesWith d := by
  have run : ∀ {ts us : List Token}, List.Forall₂ (Token.IsMoved d) ts us →
      ∀ (s : S.State) (h h' : History), h.IsMoved d h' → (h.current = none → s = S.start) →
      List.Forall₂ (Token.IsMoved d) (S.applyFrom s h ts) (S.applyFrom s h' us) := by
    intro ts us hts
    induction hts with
    | nil => exact hend
    | @cons t u ts us ht rest ih =>
      intro s h h' hmoved _
      obtain ⟨hstate, hout⟩ := hstep s t u h h' (ts.head?.map Token.kind) ht hmoved
      rw [applyFrom_cons, applyFrom_cons, head?_kind_eq rest, hstate]
      refine List.rel_append hout (ih _ _ _ (.push h h' ht) ?_)
      intro hnone
      rw [History.current_push] at hnone
      cases hnone
  intro ts us hts
  exact run hts S.start .empty .empty .none fun _ => rfl

/-! ## Stages that replace tokens where they stand -/

theorem commutesWith_trivia : trivia.CommutesWith d := by
  refine commutesWith_of_step ?_ fun _ _ _ _ _ => .nil
  intro s t u h h' next ht _
  refine ⟨rfl, ?_⟩
  simp only [trivia, Ruling.given, ht.kind]
  split
  · exact .nil
  · exact .cons ht .nil

theorem commutesWith_newlineElision : newlineElision.CommutesWith d := by
  refine commutesWith_of_step ?_ fun _ _ _ _ _ => .nil
  intro opened t u h h' next ht hmoved
  simp only [newlineElision, History.lookBack_one_push, ht.kind, hmoved.kind_eq]
  split
  · simp only [Ruling.given]
    split
    · exact ⟨rfl, .nil⟩
    · exact ⟨rfl, .cons ht .nil⟩
  · exact ⟨rfl, .cons ht .nil⟩

theorem commutesWith_newlineCleanup : newlineCleanup.CommutesWith d := by
  refine commutesWith_of_step ?_ fun _ _ _ _ _ => .nil
  intro s t u h h' next ht hmoved
  refine ⟨rfl, ?_⟩
  simp only [newlineCleanup, History.lookBack_one_push, ht.kind, hmoved.kind_eq]
  split
  · simp only [Ruling.given]
    split
    · exact .nil
    · exact .cons ht .nil
  · exact .cons ht .nil

theorem commutesWith_starOperator : starOperator.CommutesWith d := by
  refine commutesWith_of_step ?_ fun _ _ _ _ _ => .nil
  intro s t u h h' next ht hmoved
  refine ⟨rfl, ?_⟩
  simp only [starOperator, History.lookBack_one_push, ht.kind, ht.text, hmoved.kind_eq]
  split
  · simp only [Ruling.given]
    split
    · exact .cons (ht.withKind .star) .nil
    · exact .cons ht .nil
  · exact .cons ht .nil

theorem commutesWith_cascade : cascade.CommutesWith d := by
  refine commutesWith_of_step ?_ fun _ _ _ _ _ => .nil
  intro s t u h h' next ht _
  refine ⟨rfl, ?_⟩
  simp only [cascade, ht.kind]
  split
  · simp only [Ruling.given]
    split
    · exact .cons (ht.withKind .cascadeRef) (.cons (ht.mark_stop .receiverMark) .nil)
    · exact .cons ht .nil
  · exact .cons ht .nil

theorem commutesWith_memberName : memberName.CommutesWith d := by
  refine commutesWith_of_step ?_ fun _ _ _ _ _ => .nil
  intro s t u h h' next ht hmoved
  refine ⟨rfl, ?_⟩
  simp only [memberName, Ruling.given, History.lookBack_one_push, ht.text, hmoved.kind_eq]
  split
  · exact .cons (ht.withKind .identifier) .nil
  · exact .cons ht .nil

theorem commutesWith_embeddedSnippet : embeddedSnippet.CommutesWith d := by
  refine commutesWith_of_step ?_ fun _ _ _ _ _ => .nil
  intro s t u h h' next ht _
  refine ⟨rfl, ?_⟩
  simp only [embeddedSnippet, Ruling.given, ht.kind, ht.text]
  split
  · exact .cons (ht.withKind _) .nil
  · exact .cons ht .nil

/-! ## The stage that marks blocks -/

theorem forall₂_dedents {a b : Offset} (hmark : (Token.mark .dedent a).IsMoved d (.mark .dedent b))
    (closed : List Enclosure) :
    List.Forall₂ (Token.IsMoved d) (dedents a closed) (dedents b closed) :=
  List.forall₂_map_left_iff.2 (List.forall₂_map_right_iff.2 (List.forall₂_same.2 fun _ _ => hmark))

theorem commutesWith_indentation : indentation.CommutesWith d := by
  refine commutesWith_of_step ?_ ?_
  case refine_1 =>
    intro around t u h h' next ht hmoved
    have hdedents (closed : List Enclosure) :=
      List.rel_append (forall₂_dedents (ht.mark_start .dedent) closed) (.cons ht .nil)
    have hwidth : indentWidth u = indentWidth t := by rw [indentWidth, indentWidth, ht.text]
    simp only [indentation, History.lookBack_one_push, ht.kind, hmoved.kind_eq, hwidth]
    split
    · exact ⟨rfl, .cons ht .nil⟩
    · split
      · exact ⟨rfl, hdedents _⟩
      · exact ⟨rfl, .cons ht .nil⟩
    · split
      · exact ⟨rfl, .cons (ht.mark_start .indent) (.cons ht .nil)⟩
      · exact ⟨rfl, hdedents _⟩
    · exact ⟨rfl, .cons ht .nil⟩
  case refine_2 =>
    intro around h h' hmoved hstart
    show List.Forall₂ (Token.IsMoved d) (dedents h.offset around) (dedents h'.offset around)
    unfold History.offset
    unfold History.IsMoved at hmoved
    generalize h.current = before at hmoved hstart ⊢
    generalize h'.current = before' at hmoved ⊢
    cases hmoved with
    | none =>
      rw [hstart rfl]
      exact .nil
    | some ht => exact forall₂_dedents (ht.mark_stop .dedent) around

/-! ## Stages that mark groups -/

theorem isFollowed_eq (rule : GroupRule) (depth : Nat)
    (hts : List.Forall₂ (Token.IsMoved d) ts us) :
    rule.isFollowed depth us = rule.isFollowed depth ts := by
  induction hts generalizing depth with
  | nil => rfl
  | @cons t u ts us ht rest ih =>
    unfold GroupRule.isFollowed at ih ⊢
    rw [afterGroup, afterGroup, ht.kind]
    split
    case isTrue => exact ih (depth + 1)
    case isFalse =>
      split
      case isTrue => exact ih depth
      case isFalse =>
        split
        case isTrue =>
          show (us.head?.map Token.kind).any _ = (ts.head?.map Token.kind).any _
          rw [head?_kind_eq rest]
        case isFalse => exact ih (depth - 1)

theorem commutesWith_markGroups (name : String) (rule : GroupRule) :
    (markGroups name rule).CommutesWith d := by
  have run : ∀ {ts us : List Token}, List.Forall₂ (Token.IsMoved d) ts us →
      ∀ before : Option TokenKind,
      List.Forall₂ (Token.IsMoved d) (rule.insertMarks before ts) (rule.insertMarks before us) := by
    intro ts us hts
    induction hts with
    | nil => exact fun _ => .nil
    | @cons t u ts us ht rest ih =>
      intro before
      rw [GroupRule.insertMarks, GroupRule.insertMarks, GroupRule.isDue, GroupRule.isDue, ht.kind,
        isFollowed_eq rule 0 rest]
      refine List.rel_append ?_ (.cons ht (ih _))
      split
      · exact .cons (ht.mark_start rule.mark) .nil
      · exact .nil
  intro ts us hts
  rw [apply_markGroups, apply_markGroups]
  exact run hts none

end Stage

/-! ## Rich strings -/

/-- Each part of a rich string is moved with it. -/
theorem Rich.forall₂_expandFrom {read : String → List Token} {skip : Nat}
    {parts : List Rich.Segment} (ht : t.IsMoved d u)
    (hread : ∀ c ∈ codesFrom skip parts, ∀ v ∈ read (String.ofList c.2),
      (v.shifted (t.span.start.plus c.1)).span.HasRoom d) :
    List.Forall₂ (Token.IsMoved d) (expandFrom read t skip parts)
      (expandFrom read u skip parts) := by
  induction parts generalizing skip with
  | nil => exact .nil
  | cons part rest ih =>
    cases part with
    | chunk kind text =>
      exact .cons ⟨rfl, rfl, rfl, ht.span.slice skip (Text.byteCount text)⟩ (ih hread)
    | code text =>
      obtain ⟨hcode, hrest⟩ := List.forall_mem_cons.1 hread
      refine List.rel_append ?_ (ih hrest)
      exact List.forall₂_map_left_iff.2 (List.forall₂_map_right_iff.2
        (List.forall₂_same.2 fun v hv => ht.shifted (hcode v hv)))

/-- Rich strings that have been moved are replaced by moved tokens, if the tokens of the code in
them have room. -/
theorem Stage.forall₂_interpolation {read : String → List Token}
    (hts : List.Forall₂ (Token.IsMoved d) ts us)
    (hread : ∀ t ∈ ts, t.kind = .richString → ∀ c ∈ Rich.bodies t.text.toList,
      ∀ v ∈ read (String.ofList c.2),
        (v.shifted (t.span.start.plus c.1)).span.HasRoom d) :
    List.Forall₂ (Token.IsMoved d) ((interpolation read).apply ts)
      ((interpolation read).apply us) := by
  rw [apply_interpolation, apply_interpolation]
  induction hts with
  | nil => exact .nil
  | @cons t u ts us ht rest ih =>
    obtain ⟨hhere, hlater⟩ := List.forall_mem_cons.1 hread
    rw [List.flatMap_cons, List.flatMap_cons, ht.kind]
    refine List.rel_append ?_ (ih hlater)
    split
    case isTrue hkind =>
      rw [Rich.expand, Rich.expand, ht.text]
      refine Rich.forall₂_expandFrom ht ?_
      rw [Rich.codesFrom_segments]
      exact hhere hkind
    case isFalse => exact .cons ht .nil

/-! ## Pipelines -/

namespace Pass

/-- Every stage but that for interpolations commutes with moving the source. -/
theorem commutesWith_stage (read : String → List Token) (p : Pass) (hp : p ≠ .interpolation) :
    (p.stage read).CommutesWith d := by
  cases p with
  | trivia => exact Stage.commutesWith_trivia
  | newlineElision => exact Stage.commutesWith_newlineElision
  | indentation => exact Stage.commutesWith_indentation
  | starOperator => exact Stage.commutesWith_starOperator
  | functionLiteral => exact Stage.commutesWith_markGroups _ _
  | newlineCleanup => exact Stage.commutesWith_newlineCleanup
  | destructuring => exact Stage.commutesWith_markGroups _ _
  | cascade => exact Stage.commutesWith_cascade
  | memberName => exact Stage.commutesWith_memberName
  | interpolation => exact absurd rfl hp
  | embeddedSnippet => exact Stage.commutesWith_embeddedSnippet

end Pass

namespace Pipeline

/-- Given the tokens `ts`, one of the stages puts the token in for the code of a rich string, at the
place of the code. -/
inductive FromCode (read : String → List Token) : List Pass → List Token → Token → Prop
  /-- The first stage takes rich strings apart. -/
  | here {passes : List Pass} {ts : List Token} {t v : Token} {o : Nat} {code : List Char}
      (mem : t ∈ ts) (kind : t.kind = .richString) (body : (o, code) ∈ Rich.bodies t.text.toList)
      (token : v ∈ read (String.ofList code)) :
      FromCode read (.interpolation :: passes) ts (v.shifted (t.span.start.plus o))
  /-- It is a later one. -/
  | later {p : Pass} {passes : List Pass} {ts : List Token} {u : Token}
      (later : FromCode read passes ((p.stage read).apply ts) u) : FromCode read (p :: passes) ts u

/-- Pipelines commute with moving the source: if all tokens have room for it, and so do those that
are put in for code, then what is made of the moved tokens is what is made of the tokens, moved.
Texts may be longer than their spans: where the place of code wraps around, it does so for both. -/
theorem forall₂_isMoved_apply (read : String → List Token) (passes : List Pass)
    (hts : ∀ t ∈ ts, t.span.HasRoom d)
    (hcode : ∀ u, FromCode read passes ts u → u.span.HasRoom d) :
    List.Forall₂ (Token.IsMoved d) ((ofPasses read passes).apply ts)
      ((ofPasses read passes).apply (ts.map (·.moved d))) := by
  have run : ∀ (passes : List Pass) {ts us : List Token}, List.Forall₂ (Token.IsMoved d) ts us →
      (∀ u, FromCode read passes ts u → u.span.HasRoom d) →
      List.Forall₂ (Token.IsMoved d) ((ofPasses read passes).apply ts)
        ((ofPasses read passes).apply us) := by
    intro passes
    induction passes with
    | nil => exact fun hts _ => hts
    | cons p passes ih =>
      intro ts us hts hcode
      refine ih ?_ fun u hu => hcode u (.later hu)
      by_cases hp : p = .interpolation
      · subst hp
        refine Stage.forall₂_interpolation hts ?_
        intro t ht hkind c hc v hv
        exact hcode _ (.here ht hkind hc hv)
      · exact p.commutesWith_stage read hp hts
  exact run passes (Token.forall₂_moved hts) hcode

/-- A string inside the code of a string, taken apart one after the other as close to the greatest
offset as they can be. -/
theorem forall₂_isMoved_apply_twice :
    let t : Token :=
      { kind := .richString, text := "\"\x7b\"b\"\x7d\"", span := ⟨4294967280, 4294967287⟩ }
    let passes : List Pass := [.interpolation, .interpolation]
    (∀ u ∈ [t], u.span.HasRoom 8) ∧ (∀ u, FromCode lex passes [t] u → u.span.HasRoom 8) ∧
      List.Forall₂ (Token.IsMoved 8) ((ofPasses lex passes).apply [t])
        ((ofPasses lex passes).apply ([t].map (·.moved 8))) := by
  intro t passes
  have hroom : ∀ u ∈ [t], u.span.HasRoom 8 := by
    rw [List.forall_mem_singleton]
    decide
  have hbodies : Rich.bodies t.text.toList = [(2, ['"', 'b', '"'])] := by decide +kernel
  have hlex : lex (String.ofList ['"', 'b', '"']) =
      [{ kind := .richString, text := "\"b\"", span := ⟨0, 3⟩ }] := by
    decide +kernel
  -- The string that the second stage takes apart has no code of its own.
  have hrich : ((Stage.interpolation lex).apply [t]).filter (fun u => u.kind == .richString) =
      [{ kind := .richString, text := "\"b\"", span := ⟨4294967282, 4294967285⟩ }] := by
    decide +kernel
  have hnone : Rich.bodies "\"b\"".toList = [] := by decide +kernel
  have hcode : ∀ u, FromCode lex passes [t] u → u.span.HasRoom 8 := by
    show ∀ u, FromCode lex [.interpolation, .interpolation] [t] u → u.span.HasRoom 8
    intro u hu
    cases hu with
    | here mem kind body token =>
      obtain rfl := List.mem_singleton.1 mem
      rw [hbodies, List.mem_singleton] at body
      cases body
      rw [hlex, List.mem_singleton] at token
      subst token
      decide
    | later hu =>
      cases hu with
      | @here _ _ inner _ _ _ mem kind body token =>
        have hinner : inner ∈
            ((Stage.interpolation lex).apply [t]).filter fun u => u.kind == .richString :=
          List.mem_filter.2 ⟨mem, by simpa using kind⟩
        rw [hrich, List.mem_singleton] at hinner
        rw [hinner, hnone] at body
        exact absurd body List.not_mem_nil
      | later hu => cases hu
  exact ⟨hroom, hcode, forall₂_isMoved_apply lex passes hroom hcode⟩

end Pipeline

end ScriptReader
