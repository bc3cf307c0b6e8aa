import ScriptReader.Proofs.Stage.Nesting
import ScriptReader.Proofs.Token.Sites

/-!
# Where blocks start and end

Blocks start and end at newlines, before closing braces and at the end of the source.  No newline is
left that stands directly in parentheses, so no block starts or ends there; square brackets, which
may contain newlines, are the only other place than braces where one may do so.

## Main Statements

* `Stage.openParen_not_mem_sites_newlineElision` — no newline stands directly in parentheses
* `Stage.mem_blockSites_indentation` — blocks start and end where newlines stand, in braces or
  outside of all brackets

## Design Notes

That a block which ends before a closing brace does so directly in braces is where brackets have to
be well nested.
-/

namespace ScriptReader

variable {counts looked : TokenKind → Bool} {opened left : List TokenKind} {t : Token}
  {ts us : List Token} {site : Option TokenKind}

namespace Stage

/-! ## Newlines -/

/-- No newline that is kept stands directly in parentheses. -/
theorem openParen_not_mem_sites_newlineElision (ts : List Token) :
    some .openParen ∉ sites (· == .newline) [] ((newlineElision.apply ts).map Token.kind) := by
  -- The state is what is open in the output too, since newlines open and close nothing.
  have run : ∀ (ts : List Token) (opened : List TokenKind) (h : History),
      some .openParen ∉ sites (· == .newline) opened
        ((newlineElision.applyFrom opened h ts).map Token.kind) := by
    intro ts
    induction ts with
    | nil =>
      intro opened h
      exact List.not_mem_nil
    | cons t ts ih =>
      intro opened h
      rw [applyFrom_cons newlineElision opened h t ts, List.map_append]
      obtain ⟨hstate, ⟨hout, hkind⟩ | ⟨hout, hsite⟩⟩ :=
        step_newlineElision_cases opened t (h.push t) (ts.head?.map Token.kind)
      · rw [hout, hstate, hkind, openAfter_of_not_isBracket rfl]
        exact ih opened _
      · have hrest := ih (openAfter opened t.kind) (h.push t)
        rw [hout, hstate, List.map_singleton, List.singleton_append]
        by_cases hkind : t.kind = .newline
        · rw [sites_cons_of_looked (by simpa using hkind), List.mem_cons, not_or]
          exact ⟨Ne.symm (hsite hkind).1, hrest⟩
        · rw [sites_cons_of_not_looked (by simpa using hkind)]
          exact hrest
  exact run ts [] .empty

/-! ## Marks of blocks -/

theorem isBracket_of_mem_marks {marks : List Token} {a : Offset}
    (hmarks : ∀ u ∈ marks, u = .mark .indent a ∨ u = .mark .dedent a) :
    ∀ k ∈ marks.map Token.kind, k.isBracket = false := by
  intro k hk
  obtain ⟨u, hu, rfl⟩ := List.mem_map.1 hk
  rcases hmarks u hu with rfl | rfl <;> rfl

/-- Blocks start and end where newlines stand, in braces or outside of all brackets. -/
theorem mem_blockSites_indentation (hmarks : ∀ t ∈ ts, t.kind ≠ .indent ∧ t.kind ≠ .dedent)
    (hnested : NestedIn brackets (ts.map Token.kind))
    (hsite : site ∈ blockSites ((indentation.apply ts).map Token.kind)) :
    site = none ∨ site = some .openBrace ∨
      site ∈ sites (· == .newline) [] (ts.map Token.kind) := by
  have run : ∀ (ts : List Token) (around : List Enclosure) (h : History)
      (opened : List TokenKind), (∀ t ∈ ts, t.kind ≠ .indent ∧ t.kind ≠ .dedent) →
      unclosed brackets opened (ts.map Token.kind) = some [] →
      site ∈ sites TokenKind.isBlockMark opened
        ((indentation.applyFrom around h ts).map Token.kind) →
      site = none ∨ site = some .openBrace ∨
        site ∈ sites (· == .newline) opened (ts.map Token.kind) := by
    intro ts
    induction ts with
    | nil =>
      intro around h opened _ hnested hsite
      obtain rfl := Option.some.inj hnested
      have hdedents : ∀ u ∈ dedents h.offset around, u = .mark .indent h.offset ∨
          u = .mark .dedent h.offset := fun u hu => .inr (eq_mark_of_mem_dedents hu)
      exact .inl (eq_head?_of_mem_sites (isBracket_of_mem_marks hdedents) hsite)
    | cons t ts ih =>
      intro around h opened hmarks hnested hsite
      obtain ⟨⟨hindent, hdedent⟩, hrest⟩ := List.forall_mem_cons.1 hmarks
      obtain ⟨marks, hout, hnew, hkind⟩ :=
        exists_step_indentation around t (h.push t) (ts.head?.map Token.kind)
      rw [List.map_cons, unclosed_cons, Option.bind_eq_some_iff] at hnested
      obtain ⟨opened', hread, hnested⟩ := hnested
      have hnot : t.kind.isBlockMark = false := by
        rw [Bool.eq_false_iff, Ne, isBlockMark_iff]
        exact fun hmark => hmark.elim hindent hdedent
      rw [applyFrom_cons indentation around h t ts, hout, List.append_assoc, List.map_append,
        sites_append, List.mem_append, List.singleton_append, List.map_cons,
        sites_cons_of_not_looked hnot, foldl_openAfter_of_not_isBracket
          (isBracket_of_mem_marks hnew), openAfter_of_readPair hread] at hsite
      rw [List.map_cons]
      rcases hsite with hhere | hlater
      · have hhead := eq_head?_of_mem_sites (isBracket_of_mem_marks hnew) hhere
        have hsome : marks ≠ [] := by
          rintro rfl
          exact absurd hhere List.not_mem_nil
        rcases hkind hsome with hnewline | hclose
        · refine .inr (.inr ?_)
          rw [hhead, sites_cons_of_looked (by simpa using hnewline)]
          exact List.mem_cons_self
        · rw [hclose, readPair_of_partner (by decide) rfl (by decide)] at hread
          exact .inr (.inl (by rw [hhead, hread, List.head?_cons]))
      · refine (ih _ _ opened' hrest hnested hlater).imp_right (Or.imp_right fun hnewline => ?_)
        rw [← openAfter_of_readPair hread] at hnewline
        exact mem_sites_cons hnewline
  exact run ts [] .empty [] hmarks hnested hsite

end Stage

end ScriptReader
