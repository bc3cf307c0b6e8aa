import ScriptReader.Proofs.Stage.Marks
import ScriptReader.Proofs.Stage.Steps
import ScriptReader.Proofs.Token.Tiling

/-!
# Stages keep tokens where their text is

A stage renames tokens, drops some and puts marks between others.  None of this moves a text: what
comes out accounts for the same bytes as what went in, as long as nothing is dropped that is needed.

## Main Definitions

* `TokenKind.isNative` — kinds that only the lexer gives to a token
* `Token.Faithful` — a token has the text that its span says, and is one of the lexer's if its kind
  is
* `Stage.KeepsTiles` — a stage accounts for whatever its input accounts for

## Main Statements

* `Stage.keepsTiles_of_step` — it is enough that each token is replaced within its own span
* `Stage.keepsTiles_markGroups` — withheld tokens are let out where they were
* `Pass.keepsTiles_stage` — every stage but that for interpolations keeps tilings
-/

namespace ScriptReader

/-- Kinds of tokens that stages drop: blanks, comments and line breaks. -/
def TokenKind.isDroppable (k : TokenKind) : Bool := k.isTrivia || k == .newline

theorem TokenKind.isDroppable_iff {k : TokenKind} :
    k.isDroppable ↔ k ∈ [.blank, .comment, .newline] := by
  cases k <;> decide

/-- Kinds that no stage gives to a token. -/
def TokenKind.isNative (k : TokenKind) : Bool := k.isDroppable || k == .richString

/-! ## Faithful tokens -/

/-- The token stands for what the source holds in its span, and it is one of the `native` tokens if
no stage could have given it its kind. -/
structure Token.Faithful (source : List Char) (native : Token → Prop) (t : Token) : Prop where
  /-- Its text is that of its span. -/
  piece : t.IsPieceOf source
  /-- It is native if its kind is. -/
  native_of_isNative : t.kind.isNative → native t

open Token (Faithful)

namespace Token.Faithful

variable {source : List Char} {native : Token → Prop} {spare : Nat → Prop} {t : Token}
  {k : TokenKind}

/-- A mark is faithful wherever a piece of the source begins or ends. -/
theorem mark {o : Offset} (hk : k.isNative = false) (ho : Text.IsPiece source o.toNat o.toNat []) :
    Faithful source native (.mark k o) :=
  ⟨ho, fun hnative => absurd hnative (by simp [Token.mark, hk])⟩

theorem mark_start (h : Faithful source native t) (hk : k.isNative = false) :
    Faithful source native (.mark k t.span.start) :=
  .mark hk h.piece.nil_start

theorem mark_stop (h : Faithful source native t) (hk : k.isNative = false) :
    Faithful source native (.mark k t.span.stop) :=
  .mark hk h.piece.nil_stop

theorem withKind (h : Faithful source native t) (hk : k.isNative = false) :
    Faithful source native (t.withKind k) :=
  ⟨h.piece, fun hnative => absurd hnative (by simp [Token.withKind, hk])⟩

/-- A faithful token accounts for its span. -/
theorem tiles (h : Faithful source native t) :
    Tiles spare (Faithful source native) t.span.start.toNat t.span.stop.toNat [t] :=
  .single h.piece.start_le_stop h

theorem tiles_withKind (h : Faithful source native t) (hk : k.isNative = false) :
    Tiles spare (Faithful source native) t.span.start.toNat t.span.stop.toNat [t.withKind k] :=
  (h.withKind hk).tiles

/-- So does nothing at all, if the token may be dropped. -/
theorem tiles_nil (h : Faithful source native t) (hk : t.kind.isDroppable)
    (hspare : ∀ u, native u → u.kind.isDroppable → ∀ x, u.Covers x → spare x) :
    Tiles spare (Faithful source native) t.span.start.toNat t.span.stop.toNat [] := by
  have hnative : native t := h.native_of_isNative (by simp [TokenKind.isNative, hk])
  exact .nil ⟨h.piece.start_le_stop, fun x hle hlt => hspare t hnative hk x ⟨hle, hlt⟩⟩

end Token.Faithful

/-! ## Stages that replace tokens where they stand -/

namespace Stage

/-- Whatever stretch from the start of the source its input accounts for, its output accounts for
as well. -/
def KeepsTiles (S : Stage) (spare : Nat → Prop) (good : Token → Prop) : Prop :=
  ∀ ⦃b : Nat⦄ ⦃ts : List Token⦄, Tiles spare good 0 b ts → Tiles spare good 0 b (S.apply ts)

variable {source : List Char} {native good : Token → Prop} {spare : Nat → Prop}

/-- It is enough that what is made of a token accounts for its span, and that what is let out at the
end stands where the last token ends. -/
theorem keepsTiles_of_step {S : Stage}
    (hstep : ∀ s t h next, good t →
      Tiles spare good t.span.start.toNat t.span.stop.toNat ((S.step s t h).given next).2)
    (hend : ∀ s h, (∀ t, h.current = some t → good t) →
      Tiles spare good h.offset.toNat h.offset.toNat (S.atEnd s h)) :
    S.KeepsTiles spare good := by
  -- The tokens still to come begin where the newest token of the history ends.
  have run : ∀ (ts : List Token) (s : S.State) (h : History) (b : Nat),
      (∀ t, h.current = some t → good t) → Tiles spare good h.offset.toNat b ts →
      Tiles spare good h.offset.toNat b (S.applyFrom s h ts) := by
    intro ts
    induction ts with
    | nil =>
      intro s h b hcurrent hts
      have hout := (hend s h hcurrent).append hts
      rwa [List.append_nil] at hout
    | cons t ts ih =>
      intro s h b hcurrent hts
      cases hts with
      | cons skip ordered holds rest =>
        have hout := hstep s t (h.push t) (ts.head?.map Token.kind) holds
        have hrest := ih ((S.step s t (h.push t)).given (ts.head?.map Token.kind)).1 (h.push t) b
          (by simpa using holds) (by rwa [History.offset_push])
        rw [History.offset_push] at hrest
        exact Tiles.skip_left skip (hout.append hrest)
  intro b ts hts
  exact run ts S.start .empty b (by simp) hts

/-- The same for stages that withhold nothing. -/
theorem keepsTiles_of_step_of_atEnd_nil {S : Stage}
    (hstep : ∀ s t h next, good t →
      Tiles spare good t.span.start.toNat t.span.stop.toNat ((S.step s t h).given next).2)
    (hend : ∀ s h, S.atEnd s h = []) : S.KeepsTiles spare good :=
  keepsTiles_of_step hstep fun s h _ => by
    rw [hend s h]
    exact .nil (.refl _)

/-! ### Stages that drop tokens -/

section Dropping

variable (hspare : ∀ u, native u → u.kind.isDroppable → ∀ x, u.Covers x → spare x)

include hspare

theorem keepsTiles_trivia : trivia.KeepsTiles spare (Faithful source native) := by
  refine keepsTiles_of_step_of_atEnd_nil ?_ fun _ _ => rfl
  intro s t h next ht
  rcases step_trivia_cases s t h next with ⟨hout, htrivia⟩ | hout
  · rw [hout]
    exact ht.tiles_nil (by simp [TokenKind.isDroppable, htrivia]) hspare
  · rw [hout]
    exact ht.tiles

theorem keepsTiles_newlineElision : newlineElision.KeepsTiles spare (Faithful source native) := by
  refine keepsTiles_of_step_of_atEnd_nil ?_ fun _ _ => rfl
  intro opened t h next ht
  rcases (step_newlineElision_cases opened t h next).2 with ⟨hout, hnewline⟩ | ⟨hout, -⟩
  · rw [hout]
    exact ht.tiles_nil (by simp [hnewline, TokenKind.isDroppable]) hspare
  · rw [hout]
    exact ht.tiles

theorem keepsTiles_newlineCleanup : newlineCleanup.KeepsTiles spare (Faithful source native) := by
  refine keepsTiles_of_step_of_atEnd_nil ?_ fun _ _ => rfl
  intro s t h next ht
  rcases step_newlineCleanup_cases s t h next with ⟨hout, hnewline⟩ | ⟨hout, -⟩
  · rw [hout]
    exact ht.tiles_nil (by simp [hnewline, TokenKind.isDroppable]) hspare
  · rw [hout]
    exact ht.tiles

end Dropping

/-! ### Stages that rename tokens -/

theorem keepsTiles_starOperator : starOperator.KeepsTiles spare (Faithful source native) := by
  refine keepsTiles_of_step_of_atEnd_nil ?_ fun _ _ => rfl
  intro s t h next ht
  rcases step_starOperator_cases s t h next with ⟨hout, -⟩ | hout
  · rw [hout]
    exact ht.tiles_withKind rfl
  · rw [hout]
    exact ht.tiles

theorem keepsTiles_cascade : cascade.KeepsTiles spare (Faithful source native) := by
  refine keepsTiles_of_step_of_atEnd_nil ?_ fun _ _ => rfl
  intro s t h next ht
  rcases step_cascade_cases s t h next with ⟨hout, -⟩ | hout
  · have hmark : Tiles spare (Faithful source native) t.span.stop.toNat t.span.stop.toNat
        [.mark .receiverMark t.span.stop] :=
      .marks (by simpa [Token.mark] using ht.mark_stop rfl)
    rw [hout]
    exact (ht.tiles_withKind rfl).append hmark
  · rw [hout]
    exact ht.tiles

theorem keepsTiles_memberName : memberName.KeepsTiles spare (Faithful source native) := by
  refine keepsTiles_of_step_of_atEnd_nil ?_ fun _ _ => rfl
  intro s t h next ht
  rcases step_memberName_cases s t h next with ⟨hout, -⟩ | hout
  · rw [hout]
    exact ht.tiles_withKind rfl
  · rw [hout]
    exact ht.tiles

theorem keepsTiles_embeddedSnippet : embeddedSnippet.KeepsTiles spare (Faithful source native) := by
  refine keepsTiles_of_step_of_atEnd_nil ?_ fun _ _ => rfl
  intro s t h next ht
  rcases step_embeddedSnippet_cases s t h next with ⟨-, k, hk, hout⟩ | hout
  · have hnative : ∀ k ∈ [TokenKind.embeddedLine, .embeddedBlock], k.isNative = false := by decide
    rw [hout]
    exact ht.tiles_withKind (hnative k hk)
  · rw [hout]
    exact ht.tiles

/-! ### The stage that marks blocks -/

theorem tiles_dedents {o : Offset} (ho : Text.IsPiece source o.toNat o.toNat [])
    (closed : List Enclosure) :
    Tiles spare (Faithful source native) o.toNat o.toNat (dedents o closed) := by
  apply Tiles.marks
  intro u hu
  obtain ⟨-, -, rfl⟩ := List.mem_map.1 hu
  exact ⟨rfl, .mark rfl ho⟩

theorem keepsTiles_indentation : indentation.KeepsTiles spare (Faithful source native) := by
  refine keepsTiles_of_step ?_ ?_
  case refine_1 =>
    intro around t h next ht
    rcases step_indentation_cases around t h next with ⟨hout, -⟩ | ⟨closed, hout, -⟩
    · have hindent : Tiles spare (Faithful source native) t.span.start.toNat t.span.start.toNat
          [.mark .indent t.span.start] :=
        .marks (by simpa [Token.mark] using ht.mark_start rfl)
      rw [hout]
      exact hindent.append ht.tiles
    · rw [hout]
      exact (tiles_dedents ht.piece.nil_start closed).append ht.tiles
  case refine_2 =>
    intro around h hcurrent
    refine tiles_dedents ?_ around
    cases hnewest : h.current with
    | none => simpa [History.offset, hnewest] using Text.IsPiece.nil_zero source
    | some t => simpa [History.offset, hnewest] using (hcurrent t hnewest).piece.nil_stop

/-! ### Stages that mark groups -/

theorem tiles_of_marked {m : TokenKind} {opens : List TokenKind} {a b : Nat} {ts us : List Token}
    (hm : m.isNative = false) (h : Marked m opens ts us)
    (hts : Tiles spare (Faithful source native) a b ts) :
    Tiles spare (Faithful source native) a b us := by
  induction h generalizing a with
  | nil => exact hts
  | plain t rest ih =>
    cases hts with
    | cons skip ordered holds later => exact .cons skip ordered holds (ih later)
  | marked t kind_mem rest ih =>
    cases hts with
    | cons skip ordered holds later =>
      have hmark : Tiles spare (Faithful source native) t.span.start.toNat t.span.start.toNat
          [.mark m t.span.start] :=
        .marks (by simpa [Token.mark] using holds.mark_start hm)
      exact Tiles.skip_left skip (hmark.append (.cons (.refl _) ordered holds (ih later)))

theorem keepsTiles_markGroups {rule : GroupRule} (hmark : rule.mark.isNative = false)
    (name : String) : (markGroups name rule).KeepsTiles spare (Faithful source native) :=
  fun _ ts hts => tiles_of_marked hmark (marked_markGroups name rule ts) hts

end Stage

/-! ## Pipelines -/

/-- Stages that keep tilings one by one keep them together. -/
theorem Pipeline.tiles_apply {spare : Nat → Prop} {good : Token → Prop} {b : Nat}
    {stages : Pipeline} {ts : List Token} (hstages : ∀ S ∈ stages, S.KeepsTiles spare good)
    (h : Tiles spare good 0 b ts) : Tiles spare good 0 b (stages.apply ts) := by
  induction stages generalizing ts with
  | nil => exact h
  | cons S stages ih =>
    obtain ⟨hS, hrest⟩ := List.forall_mem_cons.1 hstages
    exact ih hrest (hS h)

/-- Every stage but that for interpolations keeps tilings by faithful tokens, if the native tokens
that may be dropped can be spared. -/
theorem Pass.keepsTiles_stage {source : List Char} {native : Token → Prop} {spare : Nat → Prop}
    (hspare : ∀ u, native u → u.kind.isDroppable → ∀ x, u.Covers x → spare x)
    (read : String → List Token) (p : Pass) (hp : p ≠ .interpolation) :
    (p.stage read).KeepsTiles spare (Faithful source native) := by
  cases p with
  | trivia => exact Stage.keepsTiles_trivia hspare
  | newlineElision => exact Stage.keepsTiles_newlineElision hspare
  | indentation => exact Stage.keepsTiles_indentation
  | starOperator => exact Stage.keepsTiles_starOperator
  | functionLiteral => exact Stage.keepsTiles_markGroups rfl _
  | newlineCleanup => exact Stage.keepsTiles_newlineCleanup hspare
  | destructuring => exact Stage.keepsTiles_markGroups rfl _
  | cascade => exact Stage.keepsTiles_cascade
  | memberName => exact Stage.keepsTiles_memberName
  | interpolation => exact absurd rfl hp
  | embeddedSnippet => exact Stage.keepsTiles_embeddedSnippet

end ScriptReader
