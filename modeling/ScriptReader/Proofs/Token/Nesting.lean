import ScriptReader.Token.Basic

/-!
# Brackets and blocks that close in order

Brackets nest, and so do implicit blocks, whose marks are brackets of their own kind.  Whether a
sequence of kinds is well nested is found by reading it once with the list of what is open; which
pairs of kinds count is a parameter, so that blocks can be looked at alone or among brackets.

## Main Definitions

* `TokenKind.partner?` — what a closing kind closes
* `TokenKind.isBracket`, `TokenKind.isBlockMark`, `TokenKind.isNesting` — kinds that count for
  brackets, for blocks and for both
* `unclosed` — what is open after a sequence of kinds
* `NestedIn` — every closing kind closes the innermost open one, and nothing is left open
* `Grouped` — a sequence that is put together from pairs around what is put together so
* `BlocksBalance` — no block ends before it starts, and every block ends

## Main Statements

* `nestedIn_congr` — only the kinds that count matter
* `NestedIn.grouped` — what is well nested is put together from pairs
* `unclosed_flatMap` — tokens may be replaced by others that do to what is open what they did
* `NestedIn.blocksBalance` — blocks that are well nested balance

## Design Notes

A closing kind that does not fit makes the whole sequence fail.  Where any sequence whatever has to
be read, such a kind is passed over instead; on well nested sequences that makes no difference.
-/

namespace ScriptReader

/-- The kind that opens what a kind closes; the mark that starts a block opens what the mark that
ends one closes. -/
def TokenKind.partner? : TokenKind → Option TokenKind
  | .closeParen => some .openParen
  | .closeBracket => some .openBracket
  | .closeBrace => some .openBrace
  | .dedent => some .indent
  | _ => none

/-- Whether a kind opens or closes one of the pairs whose opening kinds are given. -/
def TokenKind.isPaired (pairs : List TokenKind) (k : TokenKind) : Bool :=
  pairs.contains k || k.partner?.any pairs.contains

/-- The kinds of opening brackets. -/
def brackets : List TokenKind := [.openParen, .openBracket, .openBrace]

/-- Whether a kind is a bracket. -/
def TokenKind.isBracket : TokenKind → Bool := isPaired brackets

/-- Whether a kind is the mark of a block. -/
def TokenKind.isBlockMark : TokenKind → Bool := isPaired [.indent]

/-- Whether a kind is a bracket or the mark of a block. -/
def TokenKind.isNesting : TokenKind → Bool := isPaired (.indent :: brackets)

/-- What is open, the innermost first, after a token of kind `k`; nothing can be said if that closes
what is not the innermost. -/
def readPair (pairs opened : List TokenKind) (k : TokenKind) : Option (List TokenKind) :=
  if pairs.contains k then some (k :: opened)
  else match k.partner?.filter pairs.contains with
    | none => some opened
    | some o => if opened.head? = some o then some opened.tail else none

/-- What is open after tokens of the given kinds. -/
def unclosed (pairs opened ks : List TokenKind) : Option (List TokenKind) :=
  ks.foldlM (readPair pairs) opened

/-- Every closing kind closes the innermost open one, and nothing is left open. -/
def NestedIn (pairs ks : List TokenKind) : Prop := unclosed pairs [] ks = some []

instance (pairs ks : List TokenKind) : Decidable (NestedIn pairs ks) :=
  inferInstanceAs (Decidable (_ = _))

/-- The sequence is put together from kinds that do not count, and from pairs around what is put
together so. -/
inductive Grouped (pairs : List TokenKind) : List TokenKind → Prop
  /-- Nothing is there. -/
  | nil : Grouped pairs []
  /-- The first kind does not count. -/
  | single {k : TokenKind} {ks : List TokenKind} (skip : k.isPaired pairs = false)
      (rest : Grouped pairs ks) : Grouped pairs (k :: ks)
  /-- The first kind opens a pair. -/
  | pair {o c : TokenKind} {inner ks : List TokenKind} (opens : o ∈ pairs) (closes : c ∉ pairs)
      (partner : c.partner? = some o) (inside : Grouped pairs inner) (rest : Grouped pairs ks) :
      Grouped pairs (o :: (inner ++ c :: ks))

/-- The marks of blocks balance: no block ends before it starts, and every block ends. -/
structure BlocksBalance (ts : List Token) : Prop where
  /-- Up to any place at least as many blocks have started as have ended. -/
  ended_le : ∀ us, us <+: ts → us.countP (·.kind = .dedent) ≤ us.countP (·.kind = .indent)
  /-- As many blocks end as start. -/
  ended_eq : ts.countP (·.kind = .dedent) = ts.countP (·.kind = .indent)

variable {pairs pairs' opened left base inner ks ls : List TokenKind} {k o c : TokenKind}

/-! ## Reading one kind -/

theorem readPair_of_mem (hk : k ∈ pairs) : readPair pairs opened k = some (k :: opened) := by
  rw [readPair, if_pos (by simpa using hk)]

/-- A closing kind is read just if what it closes is innermost. -/
theorem readPair_of_partner (hk : k ∉ pairs) (hpartner : k.partner? = some o) (ho : o ∈ pairs) :
    readPair pairs opened k = some left ↔ opened = o :: left := by
  have hfilter : k.partner?.filter pairs.contains = some o := by
    rw [hpartner, Option.filter_some, if_pos (by simpa using ho)]
  rw [readPair, if_neg (by simpa using hk), hfilter]
  cases opened with
  | nil => simp
  | cons first opened =>
    by_cases hfirst : first = o
    · simp [hfirst]
    · simp [hfirst]

theorem readPair_of_not_isPaired (hk : k.isPaired pairs = false) :
    readPair pairs opened k = some opened := by
  rw [TokenKind.isPaired, Bool.or_eq_false_iff] at hk
  have hfilter : k.partner?.filter pairs.contains = none := by
    cases hpartner : k.partner? with
    | none => rfl
    | some o =>
      rw [hpartner, Option.any_some] at hk
      rw [Option.filter_some, if_neg (by simpa using hk.2)]
  rw [readPair, if_neg (by simpa using hk.1), hfilter]

/-- A kind opens a pair, closes one, or does not count. -/
theorem isPaired_cases (pairs : List TokenKind) (k : TokenKind) :
    k ∈ pairs ∨ (k ∉ pairs ∧ ∃ o ∈ pairs, k.partner? = some o) ∨ k.isPaired pairs = false := by
  by_cases hk : k ∈ pairs
  · exact .inl hk
  · cases hpartner : k.partner? with
    | none => exact .inr (.inr (by simp [TokenKind.isPaired, hpartner, hk]))
    | some o =>
      by_cases ho : o ∈ pairs
      · exact .inr (.inl ⟨hk, o, ho, rfl⟩)
      · exact .inr (.inr (by simp [TokenKind.isPaired, hpartner, hk, ho]))

/-- What a kind does is done to the innermost of what is open, so more may be open around it. -/
theorem readPair_append (h : readPair pairs opened k = some left) :
    readPair pairs (opened ++ base) k = some (left ++ base) := by
  rcases isPaired_cases pairs k with hk | ⟨hk, o, ho, hpartner⟩ | hk
  · rw [readPair_of_mem hk, Option.some_inj] at h
    rw [readPair_of_mem hk, ← h, List.cons_append]
  · rw [readPair_of_partner hk hpartner ho] at h ⊢
    rw [h, List.cons_append]
  · rw [readPair_of_not_isPaired hk, Option.some_inj] at h
    rw [readPair_of_not_isPaired hk, h]

/-! ## Reading a sequence -/

@[simp] theorem unclosed_nil : unclosed pairs opened [] = some opened := rfl

@[simp] theorem unclosed_cons :
    unclosed pairs opened (k :: ks) =
      (readPair pairs opened k).bind fun opened => unclosed pairs opened ks := rfl

theorem unclosed_singleton : unclosed pairs opened [k] = readPair pairs opened k := by
  rw [unclosed_cons]
  exact Option.bind_fun_some _

theorem unclosed_append :
    unclosed pairs opened (ks ++ ls) =
      (unclosed pairs opened ks).bind fun opened => unclosed pairs opened ls := by
  rw [unclosed, List.foldlM_append]
  rfl

theorem unclosed_append_base (h : unclosed pairs opened ks = some left) :
    unclosed pairs (opened ++ base) ks = some (left ++ base) := by
  induction ks generalizing opened with
  | nil =>
    rw [unclosed_nil, Option.some_inj] at h
    rw [unclosed_nil, h]
  | cons k ks ih =>
    rw [unclosed_cons, Option.bind_eq_some_iff] at h
    obtain ⟨opened', hread, hrest⟩ := h
    rw [unclosed_cons, readPair_append hread, Option.bind_some]
    exact ih hrest

/-- Kinds that do not count may be left out. -/
theorem unclosed_filter {counts : TokenKind → Bool}
    (hcounts : ∀ k, k.isPaired pairs → counts k) :
    unclosed pairs opened (ks.filter counts) = unclosed pairs opened ks := by
  induction ks generalizing opened with
  | nil => rfl
  | cons k ks ih =>
    by_cases hk : counts k
    · rw [List.filter_cons_of_pos hk, unclosed_cons, unclosed_cons]
      congr 1
      funext opened
      exact ih
    · have hskip : k.isPaired pairs = false := by
        rw [Bool.eq_false_iff]
        exact fun hpaired => hk (hcounts k hpaired)
      rw [List.filter_cons_of_neg hk, unclosed_cons, readPair_of_not_isPaired hskip,
        Option.bind_some]
      exact ih

/-- Tokens that agree on the kinds that count leave the same open. -/
theorem unclosed_congr {counts : TokenKind → Bool} {ts us : List Token}
    (hcounts : ∀ k, k.isPaired pairs → counts k)
    (h : us.filter (fun t => counts t.kind) = ts.filter fun t => counts t.kind) :
    unclosed pairs opened (us.map Token.kind) = unclosed pairs opened (ts.map Token.kind) := by
  have hfilter (vs : List Token) : unclosed pairs opened (vs.map Token.kind) =
      unclosed pairs opened ((vs.filter fun t => counts t.kind).map Token.kind) := by
    rw [← unclosed_filter hcounts, List.filter_map]
    rfl
  rw [hfilter us, hfilter ts, h]

/-- Tokens that agree on the kinds that count are well nested alike. -/
theorem nestedIn_congr {counts : TokenKind → Bool} {ts us : List Token}
    (hcounts : ∀ k, k.isPaired pairs → counts k)
    (h : us.filter (fun t => counts t.kind) = ts.filter fun t => counts t.kind) :
    NestedIn pairs (us.map Token.kind) ↔ NestedIn pairs (ts.map Token.kind) := by
  unfold NestedIn
  rw [unclosed_congr hcounts h]

theorem NestedIn.unclosed_eq (h : NestedIn pairs ks) : unclosed pairs opened ks = some opened := by
  have hbase : unclosed pairs ([] ++ opened) ks = some ([] ++ opened) := unclosed_append_base h
  rwa [List.nil_append] at hbase

theorem NestedIn.append (hks : NestedIn pairs ks) (hls : NestedIn pairs ls) :
    NestedIn pairs (ks ++ ls) := by
  unfold NestedIn
  rw [unclosed_append, hks, Option.bind_some]
  exact hls

theorem nestedIn_of_not_isPaired (h : ∀ k ∈ ks, k.isPaired pairs = false) : NestedIn pairs ks := by
  unfold NestedIn
  induction ks with
  | nil => rfl
  | cons k ks ih =>
    obtain ⟨hk, hks⟩ := List.forall_mem_cons.1 h
    rw [unclosed_cons, readPair_of_not_isPaired hk, Option.bind_some]
    exact ih hks

/-! ## Pairs in a sequence -/

/-- A kind that does not count may be left out. -/
theorem unclosed_cons_of_not_isPaired (hk : k.isPaired pairs = false) :
    unclosed pairs opened (k :: ks) = unclosed pairs opened ks := by
  rw [unclosed_cons, readPair_of_not_isPaired hk, Option.bind_some]

/-- So may a pair with what is in it. -/
theorem unclosed_pair (ho : o ∈ pairs) (hc : c ∉ pairs) (hpartner : c.partner? = some o)
    (hinner : NestedIn pairs inner) :
    unclosed pairs opened (o :: (inner ++ c :: ks)) = unclosed pairs opened ks := by
  rw [unclosed_cons, readPair_of_mem ho, Option.bind_some, unclosed_append, hinner.unclosed_eq,
    Option.bind_some, unclosed_cons, (readPair_of_partner hc hpartner ho).2 rfl, Option.bind_some]

/-- A pair is read if the kind that closes it finds the one that opens it innermost. -/
theorem unclosed_pair_eq_some_iff (ho : o ∈ pairs) (hc : c ∉ pairs)
    (hpartner : c.partner? = some o) :
    unclosed pairs opened (o :: (inner ++ c :: ks)) = some left ↔
      ∃ middle, unclosed pairs (o :: opened) inner = some (o :: middle) ∧
        unclosed pairs middle ks = some left := by
  rw [unclosed_cons, readPair_of_mem ho, Option.bind_some, unclosed_append, Option.bind_eq_some_iff]
  constructor
  · rintro ⟨inside, hinner, hrest⟩
    rw [unclosed_cons, Option.bind_eq_some_iff] at hrest
    obtain ⟨middle, hclose, hrest⟩ := hrest
    rw [readPair_of_partner hc hpartner ho] at hclose
    exact ⟨middle, hclose ▸ hinner, hrest⟩
  · rintro ⟨middle, hinner, hrest⟩
    refine ⟨o :: middle, hinner, ?_⟩
    rw [unclosed_cons, (readPair_of_partner hc hpartner ho).2 rfl]
    exact hrest

/-- What is open gets closed if nothing is left open.  Up to there what has been opened since, which
is `opened`, is closed. -/
theorem exists_split_of_unclosed (h : unclosed pairs (opened ++ o :: base) ks = some []) :
    ∃ inner c rest, ks = inner ++ c :: rest ∧ unclosed pairs opened inner = some [] ∧
      c ∉ pairs ∧ c.partner? = some o ∧ unclosed pairs base rest = some [] := by
  induction ks generalizing opened with
  | nil => simp at h
  | cons k ks ih =>
    -- Whatever `k` makes of what has been opened since, what follows closes that.
    have later {opened' : List TokenKind} (hread : readPair pairs opened k = some opened')
        (hrest : unclosed pairs (opened' ++ o :: base) ks = some []) :
        ∃ inner c rest, k :: ks = inner ++ c :: rest ∧ unclosed pairs opened inner = some [] ∧
          c ∉ pairs ∧ c.partner? = some o ∧ unclosed pairs base rest = some [] := by
      obtain ⟨inner, c, rest, rfl, hinner, hclose⟩ := ih hrest
      refine ⟨k :: inner, c, rest, rfl, ?_, hclose⟩
      rw [unclosed_cons, hread]
      exact hinner
    rw [unclosed_cons, Option.bind_eq_some_iff] at h
    obtain ⟨left, hread, hrest⟩ := h
    rcases isPaired_cases pairs k with hk | ⟨hk, p, hp, hpartner⟩ | hk
    · rw [readPair_of_mem hk, Option.some_inj] at hread
      subst hread
      exact later (readPair_of_mem hk) hrest
    · rw [readPair_of_partner hk hpartner hp] at hread
      cases opened with
      | nil =>
        obtain ⟨rfl, rfl⟩ := List.cons.inj hread
        exact ⟨[], k, ks, rfl, rfl, hk, hpartner, hrest⟩
      | cons first opened =>
        obtain ⟨rfl, rfl⟩ := List.cons.inj hread
        exact later ((readPair_of_partner hk hpartner hp).2 rfl) hrest
    · rw [readPair_of_not_isPaired hk, Option.some_inj] at hread
      subst hread
      exact later (readPair_of_not_isPaired hk) hrest

theorem NestedIn.grouped (h : NestedIn pairs ks) : Grouped pairs ks := by
  induction hn : ks.length using Nat.strongRecOn generalizing ks with
  | ind n ih =>
    cases ks with
    | nil => exact .nil
    | cons k ks =>
      rcases isPaired_cases pairs k with hk | ⟨hk, o, ho, hpartner⟩ | hk
      · rw [NestedIn, unclosed_cons, readPair_of_mem hk, Option.bind_some,
          ← List.nil_append [k]] at h
        obtain ⟨inner, c, rest, rfl, hinner, hc, hpartner, hrest⟩ := exists_split_of_unclosed h
        rw [List.length_cons, List.length_append, List.length_cons] at hn
        exact .pair hk hc hpartner (ih inner.length (by omega) hinner rfl)
          (ih rest.length (by omega) hrest rfl)
      · rw [NestedIn, unclosed_cons, Option.bind_eq_some_iff] at h
        obtain ⟨left, hread, -⟩ := h
        rw [readPair_of_partner hk hpartner ho] at hread
        exact absurd hread.symm (List.cons_ne_nil _ _)
      · rw [NestedIn, unclosed_cons_of_not_isPaired hk] at h
        rw [List.length_cons] at hn
        exact .single hk (ih ks.length (by omega) h rfl)

theorem Grouped.nestedIn (h : Grouped pairs ks) : NestedIn pairs ks := by
  induction h with
  | nil => rfl
  | single skip _ ih => exact (unclosed_cons_of_not_isPaired skip).trans ih
  | pair opens closes partner _ _ ihInside ih =>
    exact (unclosed_pair opens closes partner ihInside).trans ih

/-! ## Other tokens in place of some -/

/-- Tokens may be replaced by tokens that do to what is open what they did. -/
theorem unclosed_flatMap {f : Token → List Token} {ts : List Token}
    (hf : ∀ t ∈ ts, ∀ opened, unclosed pairs opened ((f t).map Token.kind) =
      readPair pairs opened t.kind) :
    unclosed pairs opened ((ts.flatMap f).map Token.kind) =
      unclosed pairs opened (ts.map Token.kind) := by
  induction ts generalizing opened with
  | nil => rfl
  | cons t ts ih =>
    obtain ⟨ht, hts⟩ := List.forall_mem_cons.1 hf
    rw [List.flatMap_cons, List.map_append, unclosed_append, ht, List.map_cons, unclosed_cons]
    congr 1
    funext opened
    exact ih hts

/-! ## Fewer pairs -/

theorem isPaired_eq_false_of_subset (hsub : ∀ k ∈ pairs', k ∈ pairs)
    (hk : k.isPaired pairs = false) : k.isPaired pairs' = false := by
  rw [TokenKind.isPaired, Bool.or_eq_false_iff] at hk ⊢
  constructor
  · have hnot : k ∉ pairs := by simpa using hk.1
    simpa using fun hmem => hnot (hsub k hmem)
  · cases hpartner : k.partner? with
    | none => rfl
    | some o =>
      have hnot : o ∉ pairs := by simpa [hpartner] using hk.2
      simpa using fun hmem => hnot (hsub o hmem)

/-- The pairs that are left out of account do not change what is open of the others. -/
theorem readPair_filter (hsub : ∀ k ∈ pairs', k ∈ pairs) (hopens : ∀ k ∈ pairs, k.partner? = none)
    (h : readPair pairs opened k = some left) :
    readPair pairs' (opened.filter pairs'.contains) k = some (left.filter pairs'.contains) := by
  rcases isPaired_cases pairs k with hk | ⟨hk, o, ho, hpartner⟩ | hk
  · rw [readPair_of_mem hk, Option.some_inj] at h
    rw [← h]
    by_cases hk' : k ∈ pairs'
    · rw [readPair_of_mem hk', List.filter_cons_of_pos (by simpa using hk')]
    · have hskip : k.isPaired pairs' = false := by simp [TokenKind.isPaired, hopens k hk, hk']
      rw [readPair_of_not_isPaired hskip, List.filter_cons_of_neg (by simpa using hk')]
  · have hk' : k ∉ pairs' := fun hmem => hk (hsub k hmem)
    rw [readPair_of_partner hk hpartner ho] at h
    rw [h]
    by_cases ho' : o ∈ pairs'
    · rw [readPair_of_partner hk' hpartner ho', List.filter_cons_of_pos (by simpa using ho')]
    · have hskip : k.isPaired pairs' = false := by
        simp [TokenKind.isPaired, hpartner, hk', ho']
      rw [readPair_of_not_isPaired hskip, List.filter_cons_of_neg (by simpa using ho')]
  · rw [readPair_of_not_isPaired hk, Option.some_inj] at h
    rw [readPair_of_not_isPaired (isPaired_eq_false_of_subset hsub hk), h]

/-- What is well nested stays so when fewer pairs are looked at. -/
theorem NestedIn.of_subset (hsub : ∀ k ∈ pairs', k ∈ pairs)
    (hopens : ∀ k ∈ pairs, k.partner? = none) (h : NestedIn pairs ks) : NestedIn pairs' ks := by
  have run : ∀ (ks opened left : List TokenKind), unclosed pairs opened ks = some left →
      unclosed pairs' (opened.filter pairs'.contains) ks =
        some (left.filter pairs'.contains) := by
    intro ks
    induction ks with
    | nil =>
      intro opened left h
      rw [unclosed_nil, Option.some_inj] at h
      rw [unclosed_nil, h]
    | cons k ks ih =>
      intro opened left h
      rw [unclosed_cons, Option.bind_eq_some_iff] at h
      obtain ⟨opened', hread, hrest⟩ := h
      rw [unclosed_cons, readPair_filter hsub hopens hread, Option.bind_some]
      exact ih opened' left hrest
  exact run ks [] [] h

/-! ## Blocks alone -/

theorem isBlockMark_iff : k.isBlockMark ↔ k = .indent ∨ k = .dedent := by
  cases k <;> decide

/-- What is open of blocks are as many as have started without ending. -/
theorem length_of_unclosed_indent {ts : List Token}
    (h : unclosed [.indent] opened (ts.map Token.kind) = some left) :
    opened.length + ts.countP (·.kind = .indent) = left.length + ts.countP (·.kind = .dedent) := by
  induction ts generalizing opened with
  | nil =>
    rw [List.map_nil, unclosed_nil, Option.some_inj] at h
    simp [h]
  | cons t ts ih =>
    rw [List.map_cons, unclosed_cons, Option.bind_eq_some_iff] at h
    obtain ⟨opened', hread, hrest⟩ := h
    have hcount := ih hrest
    rw [List.countP_cons, List.countP_cons]
    rcases isPaired_cases [.indent] t.kind with hk | ⟨hk, o, ho, hpartner⟩ | hk
    · have hkind : t.kind = .indent := by simpa using hk
      rw [readPair_of_mem hk, Option.some_inj] at hread
      rw [← hread, List.length_cons] at hcount
      simp only [hkind]
      simp
      omega
    · have hkind : t.kind = .dedent := by
        have hpaired : t.kind.isBlockMark := by
          simpa [TokenKind.isBlockMark, TokenKind.isPaired, hpartner] using
            .inr (by simpa using ho)
        rcases isBlockMark_iff.1 hpaired with hindent | hdedent
        · exact absurd (by simp [hindent]) hk
        · exact hdedent
      rw [readPair_of_partner hk hpartner ho] at hread
      rw [hread, List.length_cons]
      simp only [hkind]
      simp
      omega
    · rw [readPair_of_not_isPaired hk, Option.some_inj] at hread
      have hneither : ¬ (t.kind = .indent ∨ t.kind = .dedent) := by
        rw [← isBlockMark_iff, TokenKind.isBlockMark, hk]
        simp
      rw [not_or] at hneither
      rw [← hread] at hcount
      simp [hneither.1, hneither.2]
      omega

/-- Blocks that are well nested balance. -/
theorem NestedIn.blocksBalance {ts : List Token} (h : NestedIn [.indent] (ts.map Token.kind)) :
    BlocksBalance ts where
  ended_le := by
    rintro us ⟨vs, rfl⟩
    rw [NestedIn, List.map_append, unclosed_append, Option.bind_eq_some_iff] at h
    obtain ⟨left, hus, -⟩ := h
    have hcount := length_of_unclosed_indent hus
    rw [List.length_nil] at hcount
    omega
  ended_eq := by
    have hcount := length_of_unclosed_indent h
    omega

end ScriptReader
