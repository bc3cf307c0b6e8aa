import ScriptReader.Proofs.Lexeme.Kinds
import ScriptReader.Proofs.Lexeme.Scan

/-!
# How rich strings begin and end

A rich string begins with a quote or literal text.  It ends in one too, unless the source ends in
the middle of its code: only then is code the last thing in it.

## Main Definitions

* `Rich.EndsInText` — the last piece of a text is a quote or literal text
* `Rich.closing` — the piece that a closing quote becomes, if there is one
* `Rich.QuoteFree` — none of the pieces is a quote

## Main Statements

* `Rich.exists_segments_cons` — the first piece of a text is a quote or literal text
* `Lexeme.exists_segments_richQuoted` — the pieces of a rich string have a closing quote among them
  if the lexer stopped at one
* `pairwise_endsInText_lex` — a rich string that something follows ends in text

## Design Notes

A rich string is delimited by the lexer and cut up later, and both look for the code in it.  They
find the same because a body does not depend on what stands after the brace that closes it.
-/

namespace ScriptReader

variable {cs ds : List Char} {c d : Char} {escaped : Bool}

namespace Rich

/-! ## Pieces -/

/-- Kinds of pieces that a rich string begins with, and ends with unless it is broken off. -/
def textKinds : List TokenKind := [.quote, .stringLiteral]

/-- The last piece of a text is a quote or literal text. -/
def EndsInText (cs : List Char) : Prop :=
  ∃ init k text, segments cs = init ++ [.chunk k text] ∧ k ∈ textKinds

theorem literalThen_eq_cons {run : List Char} {rest : List Segment}
    (h : ¬ (run = [] ∧ rest = [])) :
    literalThen run rest = .chunk .stringLiteral run :: rest := if_neg h

/-- The piece that a closing quote becomes, if there is one. -/
def closing (closed : Bool) : List Segment := if closed then [.chunk .quote ['"']] else []

/-- None of the pieces is a quote. -/
def QuoteFree (parts : List Segment) : Prop := ∀ text, .chunk .quote text ∉ parts

theorem quoteFree_nil : QuoteFree [] := fun _ => List.not_mem_nil

/-- Literal text before further pieces comes before the closing quote. -/
theorem exists_literalThen_append (run : List Char) (closed : Bool) {inner : List Segment}
    (hinner : QuoteFree inner) :
    ∃ inner', literalThen run (inner ++ closing closed) = inner' ++ closing closed ∧
      QuoteFree inner' := by
  unfold literalThen
  split
  case isTrue hnone =>
    exact ⟨[], (List.append_eq_nil_iff.1 hnone.2).2.symm, quoteFree_nil⟩
  case isFalse => exact ⟨.chunk .stringLiteral run :: inner, rfl, by simpa [QuoteFree] using hinner⟩

/-- The first piece of a text is a quote or literal text. -/
theorem exists_segments_cons (c : Char) (cs : List Char) :
    ∃ k text rest, segments (c :: cs) = .chunk k text :: rest ∧ k ∈ textKinds := by
  rw [segments]
  split
  case isTrue => exact ⟨_, _, _, rfl, by decide⟩
  case isFalse =>
    have hsome : ¬ ((cut false (c :: cs)).1 = [] ∧ (cut false (c :: cs)).2 = []) := by
      rintro ⟨hrun, hrest⟩
      have hcut := flatMap_text_cut false (c :: cs)
      rw [hrun, hrest] at hcut
      simp at hcut
    exact ⟨_, _, _, literalThen_eq_cons hsome, by decide⟩

/-! ### Cutting what the lexer has delimited -/

theorem cut_cons_of_quote (hquote : c = '"' ∧ ¬ escaped) (cs : List Char) :
    cut escaped (c :: cs) =
      ([], .chunk .quote [c] :: literalThen (cut false cs).1 (cut false cs).2) := by
  rw [cut]
  exact if_pos hquote

theorem cut_cons_of_open_brace (hbrace : c = '{' ∧ ¬ escaped)
    (hdrop : cs.drop (body cs).length = []) :
    cut escaped (c :: cs) = ([], [.chunk .openBrace [c], .code (body cs)]) := by
  rw [cut, if_neg (by simp [hbrace.1]), if_pos hbrace]
  dsimp only
  split
  case h_1 => rfl
  case h_2 hcons =>
    rw [hdrop] at hcons
    cases hcons

theorem cut_cons_of_brace (hbrace : c = '{' ∧ ¬ escaped)
    (hdrop : cs.drop (body cs).length = d :: ds) :
    cut escaped (c :: cs) =
      ([], .chunk .openBrace [c] :: .code (body cs) :: .chunk .closeBrace [d] ::
        literalThen (cut false ds).1 (cut false ds).2) := by
  rw [cut, if_neg (by simp [hbrace.1]), if_pos hbrace]
  dsimp only
  split
  case h_1 hnil =>
    rw [hdrop] at hnil
    cases hnil
  case h_2 hcons =>
    rw [hdrop] at hcons
    cases hcons
    rfl

theorem cut_cons_of_plain (hquote : ¬ (c = '"' ∧ ¬ escaped)) (hbrace : ¬ (c = '{' ∧ ¬ escaped))
    (cs : List Char) :
    cut escaped (c :: cs) =
      (c :: (cut (c = '\\' ∧ ¬ escaped) cs).1, (cut (c = '\\' ∧ ¬ escaped) cs).2) := by
  rw [cut, if_neg hquote, if_neg hbrace]

end Rich

namespace Lexeme

open Rich

/-- Taking apart what the lexer has taken finds a quote at its end if the lexer stopped at one, and
no other. -/
theorem exists_cut_richQuoted (skip : Nat) (escaped : Bool) (cs : List Char) :
    ∃ inner, (cut escaped (richQuoted escaped cs)).2 =
      inner ++ closing (scan skip escaped cs).closed ∧ QuoteFree inner := by
  fun_induction scan skip escaped cs with
  | case1 =>
    rw [richQuoted, cut]
    exact ⟨[], rfl, quoteFree_nil⟩
  | case2 skip escaped c cs start hbrace size after ih =>
    rw [richQuoted, if_pos hbrace]
    dsimp only
    cases hdrop : cs.drop (body cs).length with
    | nil =>
      -- The code is not closed before the source ends, and neither is the string.
      have hrest : cs.drop size = [] := by rw [← List.drop_drop, hdrop, List.drop_nil]
      have hopen : after.closed = false := by simp only [after, hrest, scan]
      have hall : cs.take size ++ cs.drop size = cs := List.take_append_drop size cs
      rw [hrest, richQuoted, hopen]
      rw [hrest] at hall
      rw [hall, cut_cons_of_open_brace hbrace hdrop]
      exact ⟨_, (List.append_nil _).symm, by simp [QuoteFree]⟩
    | cons d ds =>
      obtain ⟨htake, hrest⟩ := take_drop_of_drop_eq_cons hdrop
      obtain ⟨inner, hinner, hfree⟩ := ih
      have hinner : (cut false (richQuoted false ds)).2 = inner ++ closing after.closed := by
        rw [← hrest]
        exact hinner
      have hbody := body_append_of_drop hdrop (richQuoted false ds)
      have hclose : (body cs ++ d :: richQuoted false ds).drop
          (body (body cs ++ d :: richQuoted false ds)).length = d :: richQuoted false ds := by
        rw [hbody, List.drop_left]
      obtain ⟨inner', hinner', hfree'⟩ := exists_literalThen_append
        (cut false (richQuoted false ds)).1 after.closed hfree
      rw [hrest, htake, List.append_assoc, List.singleton_append,
        cut_cons_of_brace hbrace hclose, hbody, hinner, hinner']
      exact ⟨.chunk .openBrace [c] :: .code (body cs) :: .chunk .closeBrace [d] :: inner', rfl,
        by simpa [QuoteFree] using hfree'⟩
  | case3 skip escaped c cs hbrace hquote =>
    rw [richQuoted, if_neg hbrace, if_pos hquote, cut_cons_of_quote hquote, cut, hquote.1]
    exact ⟨[], rfl, quoteFree_nil⟩
  | case4 skip escaped c cs start hbrace hquote after ih =>
    rw [richQuoted, if_neg hbrace, if_neg hquote, cut_cons_of_plain hquote hbrace]
    exact ih

/-- The pieces of a rich string are its opening quote, what is inside, and a closing quote if the
lexer stopped at one. -/
theorem exists_segments_richQuoted (skip : Nat) (cs : List Char) :
    ∃ inner, segments ('"' :: richQuoted false cs) =
      .chunk .quote ['"'] :: (inner ++ closing (scan skip false cs).closed) ∧ QuoteFree inner := by
  obtain ⟨inner, hinner, hfree⟩ := exists_cut_richQuoted skip false cs
  obtain ⟨inner', hinner', hfree'⟩ := exists_literalThen_append
    (cut false (richQuoted false cs)).1 (scan skip false cs).closed hfree
  refine ⟨inner', ?_, hfree'⟩
  rw [segments, if_pos rfl]
  dsimp only
  rw [hinner, hinner']

/-- The one word that is taken for a rich string is its name. -/
theorem ofWord_eq_richString {word : List Char} (h : ofWord word = .richString) :
    String.ofList word = TokenKind.richString.name := by
  have hoperator : ∀ word, ofOperator? word ≠ some .richString := by
    intro word
    unfold ofOperator?
    split <;> simp
  have hcases := ofWord_cases word
  rw [h] at hcases
  rcases hcases with hfound | ⟨-, hkind⟩ | ⟨-, hkind⟩ | ⟨hname, -⟩ | hkind
  · exact absurd hfound (hoperator _)
  · simp at hkind
  · simp at hkind
  · exact hname.symm
  · simp at hkind

/-- A rich string that something follows ends in text. -/
theorem endsInText_next (hkind : (next c cs).kind = .richString)
    (hrest : (c :: cs).drop (next c cs).text.length ≠ []) : EndsInText (next c cs).text := by
  revert hkind hrest
  unfold next
  split
  case isTrue => simp
  split
  case isTrue => simp
  split
  case isTrue => simp
  split
  case isTrue hquote =>
    intro _ hrest
    obtain ⟨inner, hinner, -⟩ := exists_segments_richQuoted 1 cs
    cases hclosed : (scan 1 false cs).closed with
    | false => simp [richQuoted_eq_of_not_closed hclosed] at hrest
    | true =>
      rw [EndsInText, hquote, hinner, hclosed]
      exact ⟨.chunk .quote ['"'] :: inner, _, _, rfl, by decide⟩
  split
  case isTrue => simp
  split
  case isTrue => simp
  case isFalse =>
    intro hkind _
    have hword := congrArg String.toList (ofWord_eq_richString hkind)
    rw [String.toList_ofList] at hword
    have hsegments : segments TokenKind.richString.name.toList =
        [.chunk .stringLiteral TokenKind.richString.name.toList] := by
      simp [segments, cut, literalThen, TokenKind.name]
    rw [hword]
    exact ⟨[], _, _, hsegments, by decide⟩

end Lexeme

/-! ## Rich strings of a source -/

theorem pairwise_endsInText_lexFrom (start : Nat) (cs : List Char) :
    (lexFrom start cs).Pairwise fun t _ =>
      t.kind = .richString → Rich.EndsInText t.text.toList := by
  fun_induction lexFrom start cs with
  | case1 => exact .nil
  | case2 start c cs first stop ih =>
    refine List.pairwise_cons.2 ⟨?_, ih⟩
    intro u hu hkind
    rw [String.toList_ofList]
    refine Lexeme.endsInText_next hkind ?_
    intro hnil
    rw [hnil, lexFrom] at hu
    exact List.not_mem_nil hu

/-- A rich string of a source that any token follows ends in text. -/
theorem pairwise_endsInText_lex (source : String) :
    (lex source).Pairwise fun t _ => t.kind = .richString → Rich.EndsInText t.text.toList :=
  pairwise_endsInText_lexFrom 0 source.toList

end ScriptReader
