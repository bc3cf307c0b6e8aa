import Mathlib.Data.List.Chain
import ScriptReader.Proofs.Stage.Nesting
import ScriptReader.Proofs.Stage.Runs

/-!
# Where blocks start and end

The stage that marks blocks puts a start before each newline that follows certain words, and ends
every block it has started: before a brace that closes around it, before a line that is indented
less, or at the end.  It takes any tokens whatever, braces that fit nothing included.

## Main Definitions

* `StartsBlock` — a token starts a block
* `Fenced` — a list of tokens with the starts and the ends of its blocks
* `readOpen`, `leftOpen` — what is open, where a brace that closes nothing is passed over
* `Enclosure.FitsIn` — an enclosure is indented at least as far as the one around it
* `Stage.enclosures` — what some tokens leave around what comes after them
* `Stage.StartsFit` — each block fits in the one around it where it starts

## Main Statements

* `Stage.fenced_indentation` — every block is ended once, and within the braces that it started in
* `Stage.isChain_enclosures` — blocks fit in those around them if they did where they started
* `Stage.not_isWiderThan_of_mem_run` — a newline ends all blocks that are indented further, if each
  fitted in the one around it

## Design Notes

A newline ends blocks from the innermost one outwards, up to the first that its line is part of.
Blocks further out may be indented further than that line if some newline started a block that is
indented less than the block around it: such a block hides what it stands in.
-/

namespace ScriptReader

open Stage (blockWords indentWidth dedents indentation)

/-! ## Tokens with the marks of their blocks -/

/-- Whether a token starts a block, with a token of kind `before` ahead of it. -/
def StartsBlock (before : Option TokenKind) (t : Token) : Prop :=
  t.kind = .newline ∧ ∃ k ∈ before, k ∈ [.tryWord, .finallyWord, .elseWord, .doWord]

instance (before : Option TokenKind) (t : Token) : Decidable (StartsBlock before t) :=
  inferInstanceAs (Decidable (_ ∧ _))

/-- The second list is the first one with marks of blocks, a token of kind `before` being ahead of
it: one start before each token that starts a block, and nothing but ends before any other. -/
inductive Fenced : Option TokenKind → List Token → List Token → Prop where
  /-- Without tokens there are no marks. -/
  | nil (before : Option TokenKind) : Fenced before [] []
  /-- One block starts. -/
  | start {before : Option TokenKind} {t : Token} {ts us : List Token}
      (hstart : StartsBlock before t) (hrest : Fenced (some t.kind) ts us) :
      Fenced before (t :: ts) (.mark .indent t.span.start :: t :: us)
  /-- Some blocks end, or none. -/
  | ends {before : Option TokenKind} {t : Token} {ts us : List Token} (n : Nat)
      (hstart : ¬ StartsBlock before t) (hrest : Fenced (some t.kind) ts us) :
      Fenced before (t :: ts) (List.replicate n (.mark .dedent t.span.start) ++ t :: us)

/-- What braces and blocks are open, the innermost first, after a token of kind `k`; nothing can be
said if that ends what is not the innermost.  A closing brace is passed over if no brace is open. -/
def readOpen (opened : List TokenKind) (k : TokenKind) : Option (List TokenKind) :=
  if k = .closeBrace ∧ .openBrace ∉ opened then some opened
  else readPair [.openBrace, .indent] opened k

/-- What braces and blocks are open after tokens of the given kinds. -/
def leftOpen (opened ks : List TokenKind) : Option (List TokenKind) := ks.foldlM readOpen opened

variable {opened left ks : List TokenKind} {k : TokenKind} {around : List Enclosure} {t : Token}
  {ts : List Token}

/-- A closing brace that closes something is not passed over. -/
theorem readOpen_of_readPair (h : readPair [.openBrace, .indent] opened k = some left) :
    readOpen opened k = some left := by
  rw [readOpen, if_neg, h]
  rintro ⟨rfl, hnone⟩
  rw [readPair_of_partner (o := .openBrace) (by decide) rfl (by decide)] at h
  exact hnone (h ▸ List.mem_cons_self)

theorem leftOpen_append (ks ls : List TokenKind) :
    leftOpen opened (ks ++ ls) = (leftOpen opened ks).bind fun opened => leftOpen opened ls :=
  List.foldlM_append

theorem leftOpen_of_unclosed (h : unclosed [.openBrace, .indent] opened ks = some left) :
    leftOpen opened ks = some left := by
  induction ks generalizing opened with
  | nil => exact h
  | cons k ks ih =>
    rw [unclosed_cons, Option.bind_eq_some_iff] at h
    obtain ⟨middle, hread, hrest⟩ := h
    rw [leftOpen, List.foldlM_cons, readOpen_of_readPair hread]
    exact ih hrest

/-- As many ends are due as blocks are open. -/
theorem dedents_eq_replicate (a : Offset) (closed : List Enclosure) :
    dedents a closed =
      List.replicate ((openKinds [.openBrace, .indent] closed).count .indent)
        (.mark .dedent a) := by
  induction closed with
  | nil => rfl
  | cons e closed ih =>
    cases e with
    | brace => exact ih
    | block w =>
      show Token.mark .dedent a :: dedents a closed =
        List.replicate ((.indent :: openKinds [.openBrace, .indent] closed).count .indent) _
      rw [List.count_cons_self, List.replicate_succ, ih]

namespace Stage

/-- Those words are the ones that the stage looks for. -/
theorem any_blockWords_iff {before : Option TokenKind} :
    before.any blockWords.contains ↔
      ∃ k ∈ before, k ∈ [TokenKind.tryWord, .finallyWord, .elseWord, .doWord] := by
  simp [Option.any_eq_true, blockWords]

/-- A token is let out behind the marks that belong there. -/
theorem fenced_step_indentation (around : List Enclosure) (t : Token) (h : History)
    (next : Option TokenKind) {us : List Token} (hrest : Fenced (some t.kind) ts us) :
    Fenced (h.lookBack 1) (t :: ts) (((indentation.step around t h).given next).2 ++ us) := by
  have hends (closed : List Enclosure) (hstart : ¬ StartsBlock (h.lookBack 1) t) :
      Fenced (h.lookBack 1) (t :: ts) (dedents t.span.start closed ++ [t] ++ us) := by
    rw [dedents_eq_replicate, List.append_assoc]
    exact .ends _ hstart hrest
  simp only [indentation]
  split
  case h_1 hkind => exact hends [] fun hstart => by simp [hstart.1] at hkind
  case h_2 hkind =>
    have hstart : ¬ StartsBlock (h.lookBack 1) t := fun hstart => by simp [hstart.1] at hkind
    split
    case isTrue => exact hends _ hstart
    case isFalse => exact hends [] hstart
  case h_3 hkind =>
    split
    case isTrue hword => exact .start ⟨hkind, any_blockWords_iff.1 hword⟩ hrest
    case isFalse hword => exact hends _ fun hstart => hword (any_blockWords_iff.2 hstart.2)
  case h_4 hkind => exact hends [] fun hstart => hkind hstart.1

/-- What is let out with a token leaves open what the state then says is around. -/
theorem leftOpen_step_indentation (around : List Enclosure) (t : Token) (h : History)
    (next : Option TokenKind) (hindent : t.kind ≠ .indent) (hdedent : t.kind ≠ .dedent) :
    leftOpen (openKinds [.openBrace, .indent] around)
        (((indentation.step around t h).given next).2.map Token.kind) =
      some (openKinds [.openBrace, .indent] ((indentation.step around t h).given next).1) := by
  by_cases hfits : t.kind = .closeBrace → .brace ∈ around
  · exact leftOpen_of_unclosed
      (unclosed_step_indentation (by simp) around t h next hindent hdedent fun _ => hfits)
  · obtain ⟨hkind, hnone⟩ := Classical.not_imp.1 hfits
    have hstep : (indentation.step around t h).given next = (around, [t]) := by
      simp [indentation, hkind, hnone, Ruling.given]
    have hbrace : .openBrace ∉ openKinds [.openBrace, .indent] around := by
      intro hmem
      obtain ⟨e, he, hopen⟩ := List.mem_map.1 (List.mem_filter.1 hmem).1
      cases e with
      | brace => exact hnone he
      | block w => simp [Enclosure.openerKind] at hopen
    rw [hstep]
    show (readOpen (openKinds [.openBrace, .indent] around) t.kind).bind some = _
    rw [readOpen, if_pos ⟨hkind, hbrace⟩, Option.bind_some]

/-- What is let out with some tokens is these tokens with their marks, and leaves open what the
state then says is around. -/
theorem fenced_runFrom_indentation (around : List Enclosure) (h : History)
    (next : Option TokenKind) (hts : ∀ t ∈ ts, t.kind ≠ .indent ∧ t.kind ≠ .dedent) :
    Fenced (h.current.map Token.kind) ts (indentation.runFrom around h next ts).2 ∧
      leftOpen (openKinds [.openBrace, .indent] around)
          ((indentation.runFrom around h next ts).2.map Token.kind) =
        some (openKinds [.openBrace, .indent] (indentation.runFrom around h next ts).1) := by
  induction ts generalizing around h with
  | nil => exact ⟨.nil _, rfl⟩
  | cons t ts ih =>
    obtain ⟨⟨hindent, hdedent⟩, hts⟩ := List.forall_mem_cons.1 hts
    obtain ⟨hfenced, hopen⟩ :=
      ih ((indentation.step around t (h.push t)).given ((ts.head?.map Token.kind).or next)).1
        (h.push t) hts
    rw [History.current_push] at hfenced
    constructor
    · rw [← History.lookBack_one_push h t]
      exact fenced_step_indentation around t (h.push t) _ hfenced
    · rw [runFrom_cons indentation around h, List.map_append, leftOpen_append,
        leftOpen_step_indentation around t (h.push t) _ hindent hdedent, Option.bind_some]
      exact hopen

/-- Every block is started and ended once, and within the braces that it started in, whatever braces
there are.  Those still open after the last token are ended behind it. -/
theorem fenced_indentation (hts : ∀ t ∈ ts, t.kind ≠ .indent ∧ t.kind ≠ .dedent) :
    (indentation.apply ts).filter (fun t => t.kind ≠ .indent ∧ t.kind ≠ .dedent) = ts ∧
      ∃ body opened, Fenced none ts body ∧ leftOpen [] (body.map Token.kind) = some opened ∧
        indentation.apply ts = body ++ List.replicate (opened.count .indent)
          (.mark .dedent ((ts.getLast?.map fun t => t.span.stop).getD 0)) := by
  have hkeeps : indentation.Keeps fun k => k ≠ .indent ∧ k ≠ .dedent := keeps_indentation rfl rfl
  obtain ⟨hfenced, hopen⟩ := fenced_runFrom_indentation [] .empty none hts
  have hend : (History.empty.pushAll ts).offset =
      (ts.getLast?.map fun t => t.span.stop).getD 0 := by
    rw [History.offset, History.current_pushAll, History.current_empty, Option.or_none]
  refine ⟨(hkeeps ts).trans (List.filter_eq_self.2 fun t ht => decide_eq_true (hts t ht)), ?_⟩
  refine ⟨(indentation.run none ts).2, _, hfenced, hopen, ?_⟩
  rw [apply_eq_run, ← hend]
  exact congrArg (_ ++ ·) (dedents_eq_replicate _ (indentation.run none ts).1)

/-- A closing brace that fits nothing, a block within braces that are closed, and two blocks within
braces that are not. -/
theorem fenced_indentation_braces :
    let ts := lex "\x7d\n\x7b do\n  do\n    \x7b do\n  x \x7d y"
    (∀ t ∈ ts, t.kind ≠ .indent ∧ t.kind ≠ .dedent) ∧
      (indentation.apply ts).filter (fun t => t.kind ≠ .indent ∧ t.kind ≠ .dedent) = ts ∧
        ∃ body opened, Fenced none ts body ∧ leftOpen [] (body.map Token.kind) = some opened ∧
          indentation.apply ts = body ++ List.replicate (opened.count .indent)
            (.mark .dedent ((ts.getLast?.map fun t => t.span.stop).getD 0)) := by
  have hall : (lex "\x7d\n\x7b do\n  do\n    \x7b do\n  x \x7d y").all
      (fun t => t.kind ≠ .indent ∧ t.kind ≠ .dedent) := by
    decide +kernel
  intro ts
  have hts : ∀ t ∈ ts, t.kind ≠ .indent ∧ t.kind ≠ .dedent := by
    simpa only [List.all_eq_true, decide_eq_true_eq] using hall
  exact ⟨hts, fenced_indentation hts⟩

/-! ## Blocks within blocks -/

end Stage

namespace Enclosure

/-- Whether an enclosure is indented at least as far as the one around it, if both are blocks. -/
def FitsIn (e outer : Enclosure) : Prop :=
  ∀ w, e = .block w → outer.isWiderThan w = false

/-- If each block fits in the one around it and a line is part of the innermost, it is part of all
of them up to the innermost brace. -/
theorem not_isWiderThan_of_isChain {width : Nat} (hchain : around.IsChain FitsIn)
    (hfirst : ∀ e ∈ around.head?, e.isWiderThan width = false) :
    ∀ e ∈ around.takeWhile isBlock, e.isWiderThan width = false := by
  induction around with
  | nil => simp
  | cons e around ih =>
    cases e with
    | brace => simp [isBlock]
    | block w =>
      have hle : ¬ width < w := by simpa [isWiderThan] using hfirst
      rw [List.isChain_cons] at hchain
      rw [List.takeWhile_cons_of_pos rfl, List.forall_mem_cons]
      refine ⟨by simpa using hfirst, ih hchain.2 fun outer houter => ?_⟩
      have hfits := hchain.1 outer houter w rfl
      cases outer with
      | brace => rfl
      | block w' => simp [isWiderThan] at hfits ⊢; omega

end Enclosure

namespace Stage

/-- A token opens a brace or a block, or leaves part of what is around. -/
theorem step_indentation_state (around : List Enclosure) (t : Token) (h : History)
    (next : Option TokenKind) :
    ((indentation.step around t h).given next).1 = .brace :: around ∨
      (StartsBlock (h.lookBack 1) t ∧
        ((indentation.step around t h).given next).1 = .block (indentWidth t) :: around) ∨
      ((indentation.step around t h).given next).1 <:+ around := by
  simp only [indentation]
  split
  case h_1 => exact .inl rfl
  case h_2 =>
    split
    case isTrue =>
      exact .inr (.inr ((List.tail_suffix _).trans (List.dropWhile_suffix _)))
    case isFalse => exact .inr (.inr List.suffix_rfl)
  case h_3 hkind =>
    split
    case isTrue hword =>
      exact .inr (.inl ⟨⟨hkind, any_blockWords_iff.1 hword⟩, rfl⟩)
    case isFalse => exact .inr (.inr (List.dropWhile_suffix _))
  case h_4 => exact .inr (.inr List.suffix_rfl)

/-- A newline that starts no block ends the innermost ones that its line is not part of. -/
theorem step_indentation_newline {around : List Enclosure} {t : Token} {h : History}
    (hnewline : t.kind = .newline) (hplain : ¬ StartsBlock (h.lookBack 1) t)
    (next : Option TokenKind) :
    ((indentation.step around t h).given next).1 =
      around.dropWhile (Enclosure.isWiderThan (indentWidth t)) := by
  have hword : ¬ (h.lookBack 1).any blockWords.contains :=
    fun hword => hplain ⟨hnewline, any_blockWords_iff.1 hword⟩
  simp only [indentation]
  rw [hnewline]
  simp only [if_neg hword, Ruling.given]

/-- Blocks that fit in those around them go on doing so, if a block that is started does. -/
theorem isChain_step_indentation {around : List Enclosure}
    (hchain : around.IsChain Enclosure.FitsIn) (t : Token) (h : History) (next : Option TokenKind)
    (hfits : StartsBlock (h.lookBack 1) t →
      ∀ e ∈ around.head?, e.isWiderThan (indentWidth t) = false) :
    (((indentation.step around t h).given next).1 : List Enclosure).IsChain Enclosure.FitsIn := by
  rcases step_indentation_state around t h next with hbrace | ⟨hstart, hblock⟩ | hsuffix
  · rw [hbrace]
    exact List.isChain_cons.2 ⟨fun outer _ w hw => by simp at hw, hchain⟩
  · rw [hblock]
    refine List.isChain_cons.2 ⟨fun outer houter w hw => ?_, hchain⟩
    obtain rfl := Enclosure.block.inj hw
    exact hfits hstart outer houter
  · exact hchain.suffix hsuffix

/-- What some tokens leave around what comes after them, the innermost first. -/
def enclosures (ts : List Token) : List Enclosure := (indentation.run none ts).1

/-- The stage does not look ahead. -/
theorem given_step_indentation (around : List Enclosure) (t : Token) (h : History)
    (next : Option TokenKind) :
    (indentation.step around t h).given next = (indentation.step around t h).given none := by
  simp only [indentation]
  split
  case h_1 => rfl
  case h_2 => split <;> rfl
  case h_3 => split <;> rfl
  case h_4 => rfl

theorem fst_run_indentation (next : Option TokenKind) (ts : List Token) :
    (indentation.run next ts).1 = enclosures ts :=
  congrArg Prod.fst (indentation.runFrom_eq_none [] .empty next ts given_step_indentation)

theorem enclosures_concat (ts : List Token) (t : Token) :
    enclosures (ts ++ [t]) =
      ((indentation.step (enclosures ts) t ((History.empty.pushAll ts).push t)).given none).1 := by
  rw [← fst_run_indentation (some t.kind) ts]
  exact indentation.fst_run_concat none ts t

/-- Each newline that starts a block is indented at least as far as the block right around it. -/
def StartsFit (ts : List Token) : Prop :=
  ∀ i < ts.length, ∀ t ∈ ts[i]?, StartsBlock ((ts.take i).getLast?.map Token.kind) t →
    ∀ e ∈ (enclosures (ts.take i)).head?, e.isWiderThan (indentWidth t) = false

instance (ts : List Token) : Decidable (StartsFit ts) :=
  inferInstanceAs (Decidable (∀ _ < _, _))

/-- If each block fits in the one right around it where it starts, this holds of all blocks that
are open at a time. -/
theorem isChain_enclosures {ts : List Token} (hfit : StartsFit ts) :
    (enclosures ts).IsChain Enclosure.FitsIn := by
  induction ts using List.reverseRecOn with
  | nil => exact .nil
  | append_singleton ts t ih =>
    have hbefore : StartsFit ts := by
      intro i hi u hu
      have hfits := hfit i (by simp; omega) u (by rwa [List.getElem?_append_left hi])
      rwa [List.take_append_of_le_length (Nat.le_of_lt hi)] at hfits
    have hlast := hfit ts.length (by simp) t (by simp)
    rw [List.take_left, ← History.lookBack_one_push_pushAll ts t] at hlast
    rw [enclosures_concat]
    exact isChain_step_indentation (ih hbefore) t _ none hlast

/-- A newline that starts no block ends the innermost blocks as long as they are indented further
than its line.  If each block fits in the one right around it where it starts, those are all that
are indented further, up to the innermost brace. -/
theorem not_isWiderThan_of_mem_run {front : List Token} {nl : Token} (next : Option TokenKind)
    (hnewline : nl.kind = .newline) (hplain : ¬ StartsBlock (front.getLast?.map Token.kind) nl) :
    let around : List Enclosure := (indentation.run next (front ++ [nl])).1
    (∀ e ∈ around.head?, e.isWiderThan (indentWidth nl) = false) ∧
      (StartsFit front →
        ∀ e ∈ around.takeWhile Enclosure.isBlock, e.isWiderThan (indentWidth nl) = false) := by
  have haround : (indentation.run next (front ++ [nl])).1 =
      (enclosures front).dropWhile (Enclosure.isWiderThan (indentWidth nl)) := by
    rw [← History.lookBack_one_push_pushAll front nl] at hplain
    rw [fst_run_indentation, enclosures_concat]
    exact step_indentation_newline hnewline hplain none
  intro around
  have hfirst : ∀ e ∈ around.head?, e.isWiderThan (indentWidth nl) = false := by
    intro e he
    have hnot := (enclosures front).head?_dropWhile_not (Enclosure.isWiderThan (indentWidth nl))
    rw [← haround, Option.mem_def.1 he] at hnot
    exact hnot
  refine ⟨hfirst, fun hfit => Enclosure.not_isWiderThan_of_isChain ?_ hfirst⟩
  show List.IsChain _ (indentation.run next (front ++ [nl])).1
  rw [haround]
  exact (isChain_enclosures hfit).suffix (List.dropWhile_suffix _)

/-- Of three blocks within each other a line is part of the outermost one only. -/
theorem not_isWiderThan_of_mem_run_deeper :
    let front := lex "do\n  do\n    do\n      x"
    let nl : Token := { kind := .newline, text := "\n   ", span := ⟨22, 26⟩ }
    let around : List Enclosure := (indentation.run (some .identifier) (front ++ [nl])).1
    nl.kind = .newline ∧ ¬ StartsBlock (front.getLast?.map Token.kind) nl ∧
      (∀ e ∈ around.head?, e.isWiderThan (indentWidth nl) = false) ∧ StartsFit front ∧
        ∀ e ∈ around.takeWhile Enclosure.isBlock, e.isWiderThan (indentWidth nl) = false := by
  have hlast : (lex "do\n  do\n    do\n      x").getLast?.map Token.kind = some .identifier := by
    decide +kernel
  have hfit : StartsFit (lex "do\n  do\n    do\n      x") := by decide +kernel
  intro front nl around
  have hplain : ¬ StartsBlock (front.getLast?.map Token.kind) nl := by
    rw [hlast]
    decide
  obtain ⟨hfirst, hall⟩ := not_isWiderThan_of_mem_run (some .identifier) rfl hplain
  exact ⟨rfl, hplain, hfirst, hfit, hall hfit⟩

/-- A block that is indented less than the block around it hides that block from a later line, which
is indented less than it. -/
theorem exists_isWiderThan_run :
    ∃ front nl back, lex "do\n  do\n x\n y" = front ++ nl :: back ∧ nl.kind = .newline ∧
      ¬ StartsBlock (front.getLast?.map Token.kind) nl ∧
        ∃ e ∈ List.takeWhile Enclosure.isBlock
            (indentation.run (back.head?.map Token.kind) (front ++ [nl])).1,
          e.isWiderThan (indentWidth nl) := by
  have hsplit : lex "do\n  do\n x\n y" = lex "do\n  do\n x" ++
      { kind := .newline, text := "\n ", span := ⟨10, 12⟩ } ::
        [{ kind := .identifier, text := "y", span := ⟨12, 13⟩ }] := by
    decide +kernel
  have hlast : (lex "do\n  do\n x").getLast?.map Token.kind = some .identifier := by
    decide +kernel
  have hstate : enclosures (lex "do\n  do\n x" ++
      [{ kind := .newline, text := "\n ", span := ⟨10, 12⟩ }]) = [.block 1, .block 2] := by
    decide +kernel
  refine ⟨_, _, _, hsplit, rfl, ?_, .block 2, ?_, ?_⟩
  · rw [hlast]
    decide
  · rw [fst_run_indentation, hstate]
    decide
  · decide

end Stage

end ScriptReader
