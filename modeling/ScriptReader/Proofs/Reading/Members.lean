import ScriptReader.Proofs.Reading.Blocks
import ScriptReader.Proofs.Stage.Members

/-!
# What members are called in a source

A word after a dot is the name of a member, even if it is a keyword elsewhere.  It gets the kind of
a name only after other stages have looked at it, and these still tell some keywords from others:
those that open blocks, those that come before the star of a module, that which begins a definition,
and that which is taken for pipes.  Within these roles it does not matter what a member is called.

## Main Statements

* `tokenize_eq_of_sameRole` — sources that differ in members of the same role have tokens of the
  same kinds in the same places
* `kinds_ne_of_member` — members of different roles can make a difference
-/

namespace ScriptReader

variable {source source' : String} {ts us : List Token} {t u : Token}

/-! ## The stages before members are named -/

theorem Stage.apply_trivia (ts : List Token) :
    trivia.apply ts = ts.filter fun t => !t.kind.isTrivia := by
  rw [apply_eq_flatMap (fun _ _ _ _ => rfl) (fun _ _ => rfl) ts]
  induction ts with
  | nil => rfl
  | cons t ts ih =>
    rw [List.flatMap_cons, ih]
    by_cases ht : t.kind.isTrivia
    · rw [List.filter_cons_of_neg (by simp [ht])]
      exact congrArg (· ++ _) (if_pos ht)
    · rw [List.filter_cons_of_pos (by simp [ht])]
      exact congrArg (· ++ _) (if_neg ht)

/-- Before rich strings are taken apart, sources that differ in members of the same role have the
same tokens but for the texts of names. -/
theorem forall₂_skeleton (h : DifferInMembers (lex source) (lex source'))
    (hroles : SameRoles (lex source) (lex source')) :
    List.Forall₂ Stage.Renamed (skeleton source) (skeleton source') := by
  have htrivia : Alike (Stage.trivia.apply (lex source)) (Stage.trivia.apply (lex source')) := by
    rw [Stage.apply_trivia, Stage.apply_trivia]
    exact h.alike hroles
  have hlines : Alike (lines source) (lines source') :=
    Stage.overlooks_newlineElision.alike_apply htrivia
  have hblocks : Alike (withBlocks source) (withBlocks source') :=
    Stage.overlooks_indentation.alike_apply hlines
  have hstar := Stage.overlooks_starOperator.alike_apply hblocks
  have hfunction := Stage.alike_functionLiteral hstar
  have hcleanup := Stage.overlooks_newlineCleanup.alike_apply hfunction
  have hpattern := Stage.alike_destructuring hcleanup
  have hcascade := Stage.overlooks_cascade.alike_apply hpattern
  exact Stage.forall₂_memberName hcascade

/-! ## Code in rich strings -/

/-- Names are no rich strings, and the same rich strings have the same code. -/
theorem forall₂_expanded (h : Stage.Renamed t u) :
    List.Forall₂ Stage.Renamed t.expanded u.expanded := by
  rcases h with rfl | ⟨ht, hu, hspan⟩
  · exact List.forall₂_same.2 fun _ _ => .inl rfl
  · unfold Token.expanded
    rw [if_neg (by simp [ht]), if_neg (by simp [hu])]
    exact .cons (.inr ⟨ht, hu, hspan⟩) .nil

/-- Names are no snippets. -/
theorem renamed_settled (h : Stage.Renamed t u) : Stage.Renamed t.settled u.settled := by
  rcases h with rfl | ⟨ht, hu, hspan⟩
  · exact .inl rfl
  · rw [Token.settled_of_ne (by simp [ht]), Token.settled_of_ne (by simp [hu])]
    exact .inr ⟨ht, hu, hspan⟩

/-- Sources that differ in members of the same role have the same tokens but for the texts of
names. -/
theorem forall₂_tokenize (h : DifferInMembers (lex source) (lex source'))
    (hroles : SameRoles (lex source) (lex source')) :
    List.Forall₂ Stage.Renamed (tokenize source) (tokenize source') := by
  rw [tokenize_eq, tokenize_eq, Stage.apply_embeddedSnippet, Stage.apply_embeddedSnippet,
    List.forall₂_map_left_iff, List.forall₂_map_right_iff]
  have hexpanded : List.Forall₂ Stage.Renamed ((skeleton source).flatMap Token.expanded)
      ((skeleton source').flatMap Token.expanded) :=
    List.rel_flatMap (forall₂_skeleton h hroles) fun _ _ hrenamed => forall₂_expanded hrenamed
  exact hexpanded.imp fun _ _ hrenamed => renamed_settled hrenamed

theorem map_eq_of_forall₂ {β : Type} {f : Token → β}
    (hf : ∀ t u, Stage.Renamed t u → f t = f u) (h : List.Forall₂ Stage.Renamed ts us) :
    ts.map f = us.map f := by
  induction h with
  | nil => rfl
  | cons hhead _ ih => rw [List.map_cons, List.map_cons, hf _ _ hhead, ih]

/-- Sources that differ in members of the same role have tokens of the same kinds in the same
places. -/
theorem tokenize_eq_of_sameRole (h : DifferInMembers (lex source) (lex source'))
    (hroles : SameRoles (lex source) (lex source')) :
    (tokenize source).map Token.kind = (tokenize source').map Token.kind ∧
      (tokenize source).map Token.span = (tokenize source').map Token.span := by
  have hrenamed := forall₂_tokenize h hroles
  constructor
  · refine map_eq_of_forall₂ ?_ hrenamed
    rintro t u (rfl | ⟨ht, hu, -⟩)
    · rfl
    · rw [ht, hu]
  · refine map_eq_of_forall₂ ?_ hrenamed
    rintro t u (rfl | ⟨-, -, hspan⟩)
    · rfl
    · exact hspan

/-- Both members come before the star of a module elsewhere. -/
theorem tokenize_eq_import_export :
    DifferInMembers (lex "a . import * b") (lex "a . export * b") ∧
    SameRoles (lex "a . import * b") (lex "a . export * b") ∧
    (tokenize "a . import * b").map Token.kind = (tokenize "a . export * b").map Token.kind ∧
    (tokenize "a . import * b").map Token.span = (tokenize "a . export * b").map Token.span := by
  have hlex : lex "a . import * b" =
      [{ kind := .identifier, text := "a", span := ⟨0, 1⟩ },
        { kind := .blank, text := " ", span := ⟨1, 2⟩ },
        { kind := .dot, text := ".", span := ⟨2, 3⟩ },
        { kind := .blank, text := " ", span := ⟨3, 4⟩ },
        { kind := .importWord, text := "import", span := ⟨4, 10⟩ },
        { kind := .blank, text := " ", span := ⟨10, 11⟩ },
        { kind := .multiplicative, text := "*", span := ⟨11, 12⟩ },
        { kind := .blank, text := " ", span := ⟨12, 13⟩ },
        { kind := .identifier, text := "b", span := ⟨13, 14⟩ }] := by
    decide +kernel
  have hlex' : lex "a . export * b" =
      [{ kind := .identifier, text := "a", span := ⟨0, 1⟩ },
        { kind := .blank, text := " ", span := ⟨1, 2⟩ },
        { kind := .dot, text := ".", span := ⟨2, 3⟩ },
        { kind := .blank, text := " ", span := ⟨3, 4⟩ },
        { kind := .exportWord, text := "export", span := ⟨4, 10⟩ },
        { kind := .blank, text := " ", span := ⟨10, 11⟩ },
        { kind := .multiplicative, text := "*", span := ⟨11, 12⟩ },
        { kind := .blank, text := " ", span := ⟨12, 13⟩ },
        { kind := .identifier, text := "b", span := ⟨13, 14⟩ }] := by
    decide +kernel
  have hdiffer : DifferInMembers (lex "a . import * b") (lex "a . export * b") := by
    rw [hlex, hlex']
    exact ⟨rfl, rfl, by decide⟩
  have hroles : SameRoles (lex "a . import * b") (lex "a . export * b") := by
    rw [hlex, hlex']
    unfold SameRoles
    decide
  exact ⟨hdiffer, hroles, tokenize_eq_of_sameRole hdiffer hroles⟩

/-- One member opens a block, the other does not. -/
theorem kinds_ne_of_member :
    DifferInMembers (lex "a . do\nb") (lex "a . if\nb") ∧
    (tokenize "a . do\nb").map Token.kind ≠ (tokenize "a . if\nb").map Token.kind := by
  have hlex : lex "a . do\nb" =
      [{ kind := .identifier, text := "a", span := ⟨0, 1⟩ },
        { kind := .blank, text := " ", span := ⟨1, 2⟩ },
        { kind := .dot, text := ".", span := ⟨2, 3⟩ },
        { kind := .blank, text := " ", span := ⟨3, 4⟩ },
        { kind := .doWord, text := "do", span := ⟨4, 6⟩ },
        { kind := .newline, text := "\n", span := ⟨6, 7⟩ },
        { kind := .identifier, text := "b", span := ⟨7, 8⟩ }] := by
    decide +kernel
  have hlex' : lex "a . if\nb" =
      [{ kind := .identifier, text := "a", span := ⟨0, 1⟩ },
        { kind := .blank, text := " ", span := ⟨1, 2⟩ },
        { kind := .dot, text := ".", span := ⟨2, 3⟩ },
        { kind := .blank, text := " ", span := ⟨3, 4⟩ },
        { kind := .ifWord, text := "if", span := ⟨4, 6⟩ },
        { kind := .newline, text := "\n", span := ⟨6, 7⟩ },
        { kind := .identifier, text := "b", span := ⟨7, 8⟩ }] := by
    decide +kernel
  have htokens : (tokenize "a . do\nb").map Token.kind =
      [.identifier, .dot, .identifier, .indent, .identifier, .dedent] := by
    decide +kernel
  have htokens' : (tokenize "a . if\nb").map Token.kind =
      [.identifier, .dot, .identifier, .newline, .identifier] := by
    decide +kernel
  constructor
  · rw [hlex, hlex']
    exact ⟨rfl, rfl, by decide⟩
  · rw [htokens, htokens']
    decide

end ScriptReader
