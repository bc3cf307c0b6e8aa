import ScriptReader.Proofs.Lexeme.Kinds
import ScriptReader.Stage.Blocks

/-!
# Sources that differ in what members are called

What a member is called should not matter for how a source is read.  Here two sequences of tokens
are compared that have the same tokens, except that the words after dots may be different ones.

## Main Definitions

* `SameRole` — two words mean the same to the stages that look at words before members are named
* `Twins` — two words that may stand for each other after a dot
* `Alike` — sequences of tokens that differ in such words only
* `DifferInMembers` — the same of the tokens of sources, blanks and comments included

## Main Statements

* `DifferInMembers.alike` — without blanks and comments the tokens are alike, if words that differ
  have the same role

## Design Notes

A dot and the word after it are one step of `Alike`.  Nothing can come between them then, and the
token that follows any initial part of the steps is the same on both sides.
-/

namespace ScriptReader

open Stage (isLowerWord)

/-- Two kinds of words mean the same to the stages before that for members: a line break after them
opens a block or does not, a star after them is one of a module or is not, a bracket after them may
begin a pattern or may not, and they are pipes or are not. -/
structure SameRole (k l : TokenKind) : Prop where
  /-- Words that open blocks. -/
  block : k ∈ [.tryWord, .finallyWord, .elseWord, .doWord] ↔
    l ∈ [.tryWord, .finallyWord, .elseWord, .doWord]
  /-- Words before the star of a module. -/
  star : k ∈ [.importWord, .exportWord] ↔ l ∈ [.importWord, .exportWord]
  /-- The word that begins a definition. -/
  define : k = .defWord ↔ l = .defWord
  /-- Pipes, which a dot may follow. -/
  pipes : k = .pipes ↔ l = .pipes

/-- The token is a word of lower-case letters, and is not taken for pipes. -/
structure Token.IsWord (t : Token) : Prop where
  /-- Its text is such a word. -/
  text : isLowerWord t.text
  /-- Its kind is one that such words have. -/
  kind : t.kind.isWord
  /-- It is not taken for pipes. -/
  not_pipes : t.kind ≠ .pipes

/-- Tokens in corresponding places have the same role. -/
def SameRoles (ts us : List Token) : Prop :=
  ∀ (i : Nat) (hi : i < ts.length) (hi' : i < us.length), SameRole ts[i].kind us[i].kind

/-- Two words in the same place that mean the same to the stages before that for members. -/
structure Twins (t u : Token) : Prop where
  /-- They are in the same place. -/
  span_eq : t.span = u.span
  /-- The one is a word. -/
  left : t.IsWord
  /-- The other is a word. -/
  right : u.IsWord
  /-- They mean the same. -/
  role : SameRole t.kind u.kind

/-- The tokens are the same but for words after dots, which may be twins. -/
inductive Alike : List Token → List Token → Prop
  | nil : Alike [] []
  | same {ts us : List Token} (t : Token) (rest : Alike ts us) : Alike (t :: ts) (t :: us)
  | member {d t u : Token} {ts us : List Token} (dot : d.kind = .dot) (twins : Twins t u)
      (rest : Alike ts us) : Alike (d :: t :: ts) (d :: u :: us)

variable {ts us vs ws : List Token} {t u d : Token} {k l : TokenKind}

/-! ## Words -/

instance (k l : TokenKind) : Decidable (SameRole k l) :=
  decidable_of_iff
    ((k ∈ [.tryWord, .finallyWord, .elseWord, .doWord] ↔
        l ∈ [.tryWord, .finallyWord, .elseWord, .doWord]) ∧
      (k ∈ [.importWord, .exportWord] ↔ l ∈ [.importWord, .exportWord]) ∧
      (k = .defWord ↔ l = .defWord) ∧ (k = .pipes ↔ l = .pipes))
    ⟨fun ⟨hblock, hstar, hdefine, hpipes⟩ => ⟨hblock, hstar, hdefine, hpipes⟩,
      fun h => ⟨h.block, h.star, h.define, h.pipes⟩⟩

/-- Words are nothing that layout or brackets are told by. -/
theorem TokenKind.isWord_ne (h : k.isWord) :
    k ≠ .newline ∧ k ≠ .dot ∧ k ≠ .openBrace ∧ k ≠ .closeBrace ∧ k ≠ .openBracket ∧
      k ≠ .closeBracket ∧ k ≠ .openParen ∧ k ≠ .closeParen ∧ k.isTrivia = false := by
  revert h
  cases k <;> decide

/-! ## Sequences that are alike -/

namespace Alike

theorem refl (ts : List Token) : Alike ts ts := by
  induction ts with
  | nil => exact .nil
  | cons t ts ih => exact .same t ih

theorem append_left (vs : List Token) (h : Alike ts us) : Alike (vs ++ ts) (vs ++ us) := by
  induction vs with
  | nil => exact h
  | cons v vs ih => exact .same v ih

theorem append (h : Alike ts us) (h' : Alike vs ws) : Alike (ts ++ vs) (us ++ ws) := by
  induction h with
  | nil => exact h'
  | same t rest ih => exact .same t ih
  | member dot twins rest ih => exact .member dot twins ih

theorem length_eq (h : Alike ts us) : ts.length = us.length := by
  induction h with
  | nil => rfl
  | same t rest ih => rw [List.length_cons, List.length_cons, ih]
  | member dot twins rest ih =>
    rw [List.length_cons, List.length_cons, List.length_cons, List.length_cons, ih]

/-- Twins never come first. -/
theorem head?_eq (h : Alike ts us) : ts.head? = us.head? := by
  cases h with
  | nil => rfl
  | same t rest => rfl
  | member dot twins rest => rfl

end Alike

/-! ## Tokens of sources -/

/-- The kind of the last token that is neither blank nor comment. -/
def precedingKind (before : List Token) : Option TokenKind :=
  (before.filter fun t => !t.kind.isTrivia).getLast?.map Token.kind

/-- The tokens are in the same places, and differ only where lower-case words come after a dot. -/
structure DifferInMembers (ts us : List Token) : Prop where
  /-- There are as many. -/
  length_eq : ts.length = us.length
  /-- They are in the same places. -/
  span_eq : ts.map Token.span = us.map Token.span
  /-- Where their kinds or texts differ, both are lower-case words, and what comes before is a
  dot. -/
  differ : ∀ (i : Nat) (hi : i < ts.length) (hi' : i < us.length),
    (ts[i].kind = us[i].kind ∧ ts[i].text = us[i].text) ∨
      (isLowerWord ts[i].text ∧ isLowerWord us[i].text ∧ precedingKind (ts.take i) = some .dot)

/-! ### Blanks and comments left out -/

theorem precedingKind_concat_of_trivia (before : List Token) (ht : t.kind.isTrivia) :
    precedingKind (before ++ [t]) = precedingKind before := by
  simp [precedingKind, ht]

theorem precedingKind_concat (before : List Token) (ht : t.kind.isTrivia = false) :
    precedingKind (before ++ [t]) = some t.kind := by
  simp [precedingKind, ht]

/-- Only one word is taken for pipes. -/
theorem text_eq_of_kind_eq_pipes {source : String} (ht : t ∈ lex source)
    (hword : isLowerWord t.text) (hkind : t.kind = .pipes) : t.text = TokenKind.pipes.name := by
  rcases name_kind_of_mem_lex ht hword with hidentifier | ⟨hname, -⟩
  · rw [hkind] at hidentifier
    simp at hidentifier
  · rw [← hname, hkind]

/-- Where two sources differ in words of the same role, these are twins after a dot. -/
theorem DifferInMembers.eq_or_twins {source source' : String}
    (h : DifferInMembers (lex source) (lex source')) {i : Nat} (hi : i < (lex source).length)
    (hi' : i < (lex source').length)
    (hrole : SameRole (lex source)[i].kind (lex source')[i].kind) :
    (lex source)[i] = (lex source')[i] ∨
      (Twins (lex source)[i] (lex source')[i] ∧
        precedingKind ((lex source).take i) = some .dot) := by
  have hspan : (lex source)[i].span = (lex source')[i].span := by
    have hspans := congrArg (·[i]?) h.span_eq
    simpa [hi, hi'] using hspans
  have hdiffer := h.differ i hi hi'
  have ht : (lex source)[i] ∈ lex source := List.getElem_mem hi
  have hu : (lex source')[i] ∈ lex source' := List.getElem_mem hi'
  generalize (lex source)[i] = t at *
  generalize (lex source')[i] = u at *
  have heq (hkind : t.kind = u.kind) (htext : t.text = u.text) : t = u := by
    have hlocation := (location_of_mem_lex ht).trans (location_of_mem_lex hu).symm
    cases t
    cases u
    simp_all
  rcases hdiffer with ⟨hkind, htext⟩ | ⟨hwordt, hwordu, hdot⟩
  · exact .inl (heq hkind htext)
  · by_cases hpipes : t.kind = .pipes
    · have hpipes' : u.kind = .pipes := hrole.pipes.1 hpipes
      refine .inl (heq (hpipes.trans hpipes'.symm) ?_)
      rw [text_eq_of_kind_eq_pipes ht hwordt hpipes, text_eq_of_kind_eq_pipes hu hwordu hpipes']
    · have hpipes' : u.kind ≠ .pipes := fun hu => hpipes (hrole.pipes.2 hu)
      have hleft : t.IsWord := ⟨hwordt, isWord_kind_of_mem_lex ht hwordt, hpipes⟩
      have hright : u.IsWord := ⟨hwordu, isWord_kind_of_mem_lex hu hwordu, hpipes'⟩
      exact .inr ⟨⟨hspan, hleft, hright, hrole⟩, hdot⟩

/-- Tokens that are the same but for twins after dots are alike when blanks and comments are left
out.  What stands in `pending` is the dot that comes before, if a dot does. -/
theorem alike_filter {done pending : List Token}
    (hpending : (pending = [] ∧ precedingKind done ≠ some .dot) ∨
      ∃ d : Token, pending = [d] ∧ d.kind = .dot)
    (hlength : ts.length = us.length)
    (hdiffer : ∀ i t u, ts[i]? = some t → us[i]? = some u →
      t = u ∨ (Twins t u ∧ precedingKind (done ++ ts.take i) = some .dot)) :
    Alike (pending ++ ts.filter fun t => !t.kind.isTrivia)
      (pending ++ us.filter fun t => !t.kind.isTrivia) := by
  induction ts generalizing us done pending with
  | nil =>
    obtain rfl := List.length_eq_zero_iff.1 hlength.symm
    exact .refl _
  | cons t ts ih =>
    obtain ⟨u, us, rfl⟩ := List.exists_cons_of_length_eq_add_one hlength.symm
    have hlengths : ts.length = us.length := by simpa using hlength
    have hrest : ∀ i v w, ts[i]? = some v → us[i]? = some w →
        v = w ∨ (Twins v w ∧ precedingKind ((done ++ [t]) ++ ts.take i) = some .dot) := by
      intro i v w hv hw
      have hlater := hdiffer (i + 1) v w (by simpa using hv) (by simpa using hw)
      rwa [List.take_succ_cons, ← List.singleton_append, ← List.append_assoc] at hlater
    rcases hdiffer 0 t u rfl rfl with rfl | ⟨htwins, hdot⟩
    · by_cases htrivia : t.kind.isTrivia
      · rw [List.filter_cons_of_neg (by simp [htrivia]),
          List.filter_cons_of_neg (by simp [htrivia])]
        refine ih ?_ hlengths hrest
        rwa [precedingKind_concat_of_trivia done htrivia]
      · rw [Bool.not_eq_true] at htrivia
        rw [List.filter_cons_of_pos (by simp [htrivia]),
          List.filter_cons_of_pos (by simp [htrivia])]
        refine Alike.append_left pending ?_
        by_cases hdot : t.kind = .dot
        · exact ih (.inr ⟨t, rfl, hdot⟩) hlengths hrest
        · have hnone : precedingKind (done ++ [t]) ≠ some .dot := by
            rw [precedingKind_concat done htrivia]
            simpa using hdot
          have hlater := ih (.inl ⟨rfl, hnone⟩) hlengths hrest
          exact .same t hlater
    · -- What comes before the twins is the dot that is pending.
      rw [List.take_zero, List.append_nil] at hdot
      obtain ⟨d, rfl, hd⟩ : ∃ d : Token, pending = [d] ∧ d.kind = .dot := by
        rcases hpending with ⟨-, hnone⟩ | hpending
        · exact absurd hdot hnone
        · exact hpending
      have htrivia {v : Token} (hv : v.IsWord) : v.kind.isTrivia = false :=
        (TokenKind.isWord_ne hv.kind).2.2.2.2.2.2.2.2
      have hnone : precedingKind (done ++ [t]) ≠ some .dot := by
        rw [precedingKind_concat done (htrivia htwins.left)]
        simpa using (TokenKind.isWord_ne htwins.left.kind).2.1
      have hlater := ih (.inl ⟨rfl, hnone⟩) hlengths hrest
      rw [List.filter_cons_of_pos (by simp [htrivia htwins.left]),
        List.filter_cons_of_pos (by simp [htrivia htwins.right])]
      exact .member hd htwins hlater

/-- Blanks and comments left out, the tokens of sources are alike that differ in members of the same
role only. -/
theorem DifferInMembers.alike {source source' : String}
    (h : DifferInMembers (lex source) (lex source'))
    (hroles : SameRoles (lex source) (lex source')) :
    Alike ((lex source).filter fun t => !t.kind.isTrivia)
      ((lex source').filter fun t => !t.kind.isTrivia) := by
  have hnone : precedingKind [] ≠ some .dot := by simp [precedingKind]
  refine alike_filter (.inl ⟨rfl, hnone⟩) h.length_eq ?_
  intro i t u ht hu
  obtain ⟨hi, rfl⟩ := List.getElem?_eq_some_iff.1 ht
  obtain ⟨hi', rfl⟩ := List.getElem?_eq_some_iff.1 hu
  rw [List.nil_append]
  exact h.eq_or_twins hi hi' (hroles i hi hi')

end ScriptReader
