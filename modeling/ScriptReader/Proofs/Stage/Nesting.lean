import ScriptReader.Proofs.Stage.Kept
import ScriptReader.Proofs.Token.Nesting

/-!
# Implicit blocks close in order

The stage that marks blocks ends every block that it starts, in reverse order, whatever braces it
comes across.  If these are well nested, blocks and braces are well nested together.

## Main Definitions

* `Enclosure.openerKind`, `Enclosure.closerKind` — the kinds that an enclosure begins and ends with
* `openKinds` — what the enclosures at hand leave open of certain pairs

## Main Statements

* `Stage.unclosed_step_indentation` — what is let out with a token leaves open what the state says
* `Stage.nestedIn_indentation` — blocks are well nested, also with braces if these are so

## Design Notes

The state of the stage is what its output leaves open, seen through the pairs that are looked at.
Without braces among the pairs this holds of any input; a closing brace that fits nothing would
break it otherwise, hence the condition on braces.
-/

namespace ScriptReader

namespace Enclosure

variable {e : Enclosure}

/-- The kind that an enclosure begins with. -/
def openerKind : Enclosure → TokenKind
  | .brace => .openBrace
  | .block _ => .indent

/-- The kind that an enclosure ends with. -/
def closerKind : Enclosure → TokenKind
  | .brace => .closeBrace
  | .block _ => .dedent

theorem partner?_openerKind (e : Enclosure) : e.openerKind.partner? = none := by
  cases e <;> rfl

theorem partner?_closerKind (e : Enclosure) : e.closerKind.partner? = some e.openerKind := by
  cases e <;> rfl

theorem isBlock_of_isWiderThan {width : Nat} (h : e.isWiderThan width) : e.isBlock := by
  cases e with
  | brace => simp [isWiderThan] at h
  | block w => rfl

/-- Around the blocks at hand is the innermost brace, if there is one. -/
theorem exists_dropWhile_isBlock {around : List Enclosure} (h : brace ∈ around) :
    ∃ rest, around.dropWhile isBlock = brace :: rest := by
  induction around with
  | nil => simp at h
  | cons e around ih =>
    cases e with
    | brace => exact ⟨around, rfl⟩
    | block w => exact ih (by simpa using h)

end Enclosure

/-- What enclosures leave open, the innermost first, of the pairs that are looked at. -/
def openKinds (pairs : List TokenKind) (around : List Enclosure) : List TokenKind :=
  (around.map Enclosure.openerKind).filter pairs.contains

/-! ## Enclosures as pairs -/

variable {pairs : List TokenKind} {around closed : List Enclosure} {e : Enclosure}
  {k : TokenKind} {t : Token} {ts : List Token}

theorem openKinds_cons_of_mem (h : e.openerKind ∈ pairs) :
    openKinds pairs (e :: around) = e.openerKind :: openKinds pairs around := by
  unfold openKinds
  rw [List.map_cons, List.filter_cons_of_pos (by simpa using h)]

theorem openKinds_cons_of_not_mem (h : e.openerKind ∉ pairs) :
    openKinds pairs (e :: around) = openKinds pairs around := by
  unfold openKinds
  rw [List.map_cons, List.filter_cons_of_neg (by simpa using h)]

/-- What an enclosure begins with opens it. -/
theorem readPair_openerKind (e : Enclosure) :
    readPair pairs (openKinds pairs around) e.openerKind =
      some (openKinds pairs (e :: around)) := by
  by_cases hmem : e.openerKind ∈ pairs
  · rw [readPair_of_mem hmem, openKinds_cons_of_mem hmem]
  · have hskip : e.openerKind.isPaired pairs = false := by
      simp [TokenKind.isPaired, e.partner?_openerKind, hmem]
    rw [readPair_of_not_isPaired hskip, openKinds_cons_of_not_mem hmem]

section

variable (hpairs : ∀ k ∈ pairs, k = .openBrace ∨ k = .indent)

include hpairs

theorem closerKind_not_mem (e : Enclosure) : e.closerKind ∉ pairs := by
  intro hmem
  cases e with
  | brace => simpa [Enclosure.closerKind] using hpairs _ hmem
  | block w => simpa [Enclosure.closerKind] using hpairs _ hmem

/-- What an enclosure ends with closes it. -/
theorem readPair_closerKind (e : Enclosure) :
    readPair pairs (openKinds pairs (e :: around)) e.closerKind =
      some (openKinds pairs around) := by
  have hclose := closerKind_not_mem hpairs e
  by_cases hmem : e.openerKind ∈ pairs
  · rw [openKinds_cons_of_mem hmem, readPair_of_partner hclose e.partner?_closerKind hmem]
  · have hskip : e.closerKind.isPaired pairs = false := by
      simp [TokenKind.isPaired, e.partner?_closerKind, hclose, hmem]
    rw [readPair_of_not_isPaired hskip, openKinds_cons_of_not_mem hmem]

/-- No other kinds count. -/
theorem isPaired_eq_false (hopener : ∀ e : Enclosure, k ≠ e.openerKind)
    (hcloser : ∀ e : Enclosure, k ≠ e.closerKind) : k.isPaired pairs = false := by
  rcases isPaired_cases pairs k with hk | ⟨-, o, ho, hpartner⟩ | hk
  · rcases hpairs k hk with rfl | rfl
    · exact absurd rfl (hopener .brace)
    · exact absurd rfl (hopener (.block 0))
  · have hbrace : k ≠ .closeBrace := hcloser .brace
    have hdedent : k ≠ .dedent := hcloser (.block 0)
    rcases hpairs o ho with rfl | rfl
    · cases k <;> simp_all [TokenKind.partner?]
    · cases k <;> simp_all [TokenKind.partner?]
  · exact hk

end

/-! ## The stage that marks blocks -/

namespace Stage

section

variable (hpairs : ∀ k ∈ pairs, k = .openBrace ∨ k = .indent)

include hpairs

/-- The marks that end blocks leave open what is around the blocks. -/
theorem unclosed_dedents (a : Offset)
    (hclosed : ∀ e ∈ closed, e.openerKind ∈ pairs → e.isBlock) :
    unclosed pairs (openKinds pairs (closed ++ around)) ((dedents a closed).map Token.kind) =
      some (openKinds pairs around) := by
  induction closed with
  | nil => rfl
  | cons e closed ih =>
    obtain ⟨he, hrest⟩ := List.forall_mem_cons.1 hclosed
    rw [List.cons_append]
    cases e with
    | brace =>
      have hbrace : Enclosure.brace.openerKind ∉ pairs := fun hmem => by
        simpa [Enclosure.isBlock] using he hmem
      rw [openKinds_cons_of_not_mem hbrace]
      exact ih hrest
    | block w =>
      show unclosed pairs _ ((Enclosure.block w).closerKind :: (dedents a closed).map Token.kind) =
        _
      rw [unclosed_cons, readPair_closerKind hpairs, Option.bind_some]
      exact ih hrest

/-- The blocks that end with a token do so in front of it, and it is read in what is left. -/
theorem unclosed_dedents_takeWhile {ends : Enclosure → Bool} (hends : ∀ e, ends e → e.isBlock)
    (around : List Enclosure) (t : Token) :
    unclosed pairs (openKinds pairs around)
        ((dedents t.span.start (around.takeWhile ends) ++ [t]).map Token.kind) =
      readPair pairs (openKinds pairs (around.dropWhile ends)) t.kind := by
  have hclosed : unclosed pairs
      (openKinds pairs (around.takeWhile ends ++ around.dropWhile ends))
      ((dedents t.span.start (around.takeWhile ends)).map Token.kind) = _ :=
    unclosed_dedents hpairs t.span.start
      fun e he _ => hends e (List.all_eq_true.1 List.all_takeWhile e he)
  rw [List.takeWhile_append_dropWhile] at hclosed
  rw [List.map_append, unclosed_append, hclosed, Option.bind_some]
  exact unclosed_singleton

/-- What is let out with a token leaves open what the state then says is around. -/
theorem unclosed_step_indentation (around : List Enclosure) (t : Token) (h : History)
    (next : Option TokenKind) (hindent : t.kind ≠ .indent) (hdedent : t.kind ≠ .dedent)
    (hbrace : .openBrace ∈ pairs → t.kind = .closeBrace → .brace ∈ around) :
    unclosed pairs (openKinds pairs around)
        (((indentation.step around t h).given next).2.map Token.kind) =
      some (openKinds pairs ((indentation.step around t h).given next).1) := by
  simp only [indentation]
  split
  case h_1 hkind =>
    show unclosed pairs (openKinds pairs around) [t.kind] =
      some (openKinds pairs (.brace :: around))
    rw [unclosed_singleton, hkind]
    exact readPair_openerKind .brace
  case h_2 hkind =>
    split
    case isTrue hcontains =>
      obtain ⟨rest, hrest⟩ := Enclosure.exists_dropWhile_isBlock (by simpa using hcontains)
      show unclosed pairs (openKinds pairs around)
          ((dedents t.span.start (around.takeWhile Enclosure.isBlock) ++ [t]).map Token.kind) =
        some (openKinds pairs (around.dropWhile Enclosure.isBlock).tail)
      rw [unclosed_dedents_takeWhile hpairs fun _ he => he, hkind, hrest, List.tail_cons]
      exact readPair_closerKind hpairs .brace
    case isFalse hcontains =>
      have hmem : .openBrace ∉ pairs := fun hmem =>
        hcontains (by simpa using hbrace hmem hkind)
      have hclose : .closeBrace ∉ pairs := closerKind_not_mem hpairs .brace
      have hskip : t.kind.isPaired pairs = false := by
        simp [TokenKind.isPaired, hkind, TokenKind.partner?, hmem, hclose]
      show unclosed pairs (openKinds pairs around) [t.kind] = some (openKinds pairs around)
      rw [unclosed_singleton, readPair_of_not_isPaired hskip]
  case h_3 hkind =>
    have hskip : t.kind.isPaired pairs = false := by
      rw [hkind]
      exact isPaired_eq_false hpairs (fun e => by cases e <;> simp [Enclosure.openerKind])
        fun e => by cases e <;> simp [Enclosure.closerKind]
    split
    case isTrue =>
      show unclosed pairs (openKinds pairs around)
          [(Enclosure.block (indentWidth t)).openerKind, t.kind] =
        some (openKinds pairs (.block (indentWidth t) :: around))
      rw [unclosed_cons, readPair_openerKind, Option.bind_some, unclosed_singleton,
        readPair_of_not_isPaired hskip]
    case isFalse =>
      show unclosed pairs (openKinds pairs around)
          ((dedents t.span.start (around.takeWhile (Enclosure.isWiderThan (indentWidth t))) ++
            [t]).map Token.kind) =
        some (openKinds pairs (around.dropWhile (Enclosure.isWiderThan (indentWidth t))))
      rw [unclosed_dedents_takeWhile hpairs fun _ he => Enclosure.isBlock_of_isWiderThan he,
        readPair_of_not_isPaired hskip]
  case h_4 hopen hclose hnewline =>
    have hskip : t.kind.isPaired pairs = false := by
      refine isPaired_eq_false hpairs ?_ ?_
      · intro e
        cases e with
        | brace => exact hopen
        | block w => exact hindent
      · intro e
        cases e with
        | brace => exact hclose
        | block w => exact hdedent
    show unclosed pairs (openKinds pairs around) [t.kind] = some (openKinds pairs around)
    rw [unclosed_singleton, readPair_of_not_isPaired hskip]

end

/-- The braces that a well nested sequence still closes are open. -/
theorem brace_mem_of_readPair {left : List TokenKind}
    (h : readPair [.openBrace] (openKinds [.openBrace] around) .closeBrace = some left) :
    .brace ∈ around := by
  rw [readPair_of_partner (by decide) rfl (by decide)] at h
  have hopen : .openBrace ∈ openKinds [.openBrace] around := by simp [h]
  obtain ⟨e, he, hkind⟩ := List.mem_map.1 (List.mem_filter.1 hopen).1
  cases e with
  | brace => exact he
  | block w => simp [Enclosure.openerKind] at hkind

/-- The marks are no braces, so the state follows the braces of the input as well. -/
theorem readPair_step_indentation (around : List Enclosure) (t : Token) (h : History)
    (next : Option TokenKind) (hindent : t.kind ≠ .indent) (hdedent : t.kind ≠ .dedent)
    (hbrace : t.kind = .closeBrace → .brace ∈ around) :
    readPair [.openBrace] (openKinds [.openBrace] around) t.kind =
      some (openKinds [.openBrace] ((indentation.step around t h).given next).1) := by
  have hkept : ((indentation.step around t h).given next).2.filter
      (fun t => t.kind.isPaired [.openBrace]) = [t].filter fun t => t.kind.isPaired [.openBrace] :=
    filter_step_indentation rfl rfl around t h next
  have hbraceOnly : ∀ k ∈ [TokenKind.openBrace], k = .openBrace ∨ k = .indent := by simp
  have hstate := unclosed_step_indentation hbraceOnly around t h next hindent hdedent
    fun _ => hbrace
  rwa [unclosed_congr (fun _ hk => hk) hkept, List.map_singleton, unclosed_singleton] at hstate

/-- Blocks are well nested; with the braces too, if these are so. -/
theorem nestedIn_indentation (hpairs : ∀ k ∈ pairs, k = .openBrace ∨ k = .indent)
    (hmarks : ∀ t ∈ ts, t.kind ≠ .indent ∧ t.kind ≠ .dedent)
    (hbraces : .openBrace ∈ pairs → NestedIn [.openBrace] (ts.map Token.kind)) :
    NestedIn pairs ((indentation.apply ts).map Token.kind) := by
  -- What the state says is around is what the output leaves open, of braces also what the rest of
  -- the input will close.
  have run : ∀ (ts : List Token) (around : List Enclosure) (h : History),
      (∀ t ∈ ts, t.kind ≠ .indent ∧ t.kind ≠ .dedent) →
      (.openBrace ∈ pairs →
        unclosed [.openBrace] (openKinds [.openBrace] around) (ts.map Token.kind) = some []) →
      unclosed pairs (openKinds pairs around)
        ((indentation.applyFrom around h ts).map Token.kind) = some [] := by
    intro ts
    induction ts with
    | nil =>
      intro around h _ hbraces
      have hblocks : ∀ e ∈ around, e.openerKind ∈ pairs → e.isBlock := by
        intro e he hmem
        cases e with
        | block w => rfl
        | brace =>
          have hopen : .openBrace ∈ openKinds [.openBrace] around :=
            List.mem_filter.2 ⟨List.mem_map.2 ⟨_, he, rfl⟩, rfl⟩
          rw [Option.some.inj (hbraces hmem)] at hopen
          simp at hopen
      have hclosed : unclosed pairs (openKinds pairs (around ++ []))
          ((dedents h.offset around).map Token.kind) = some (openKinds pairs []) :=
        unclosed_dedents hpairs h.offset hblocks
      rwa [List.append_nil] at hclosed
    | cons t ts ih =>
      intro around h hmarks hbraces
      obtain ⟨⟨hindent, hdedent⟩, hrest⟩ := List.forall_mem_cons.1 hmarks
      have hbrace (hmem : .openBrace ∈ pairs) (hkind : t.kind = .closeBrace) :
          .brace ∈ around := by
        have hread := hbraces hmem
        rw [List.map_cons, unclosed_cons, Option.bind_eq_some_iff, hkind] at hread
        obtain ⟨left, hread, -⟩ := hread
        exact brace_mem_of_readPair hread
      rw [applyFrom_cons indentation around h t ts, List.map_append, unclosed_append,
        unclosed_step_indentation hpairs around t _ _ hindent hdedent hbrace, Option.bind_some]
      refine ih _ _ hrest ?_
      intro hmem
      have hread := hbraces hmem
      rw [List.map_cons, unclosed_cons,
        readPair_step_indentation around t (h.push t) _ hindent hdedent (hbrace hmem),
        Option.bind_some] at hread
      exact hread
  exact run ts [] .empty hmarks hbraces

end Stage

end ScriptReader
