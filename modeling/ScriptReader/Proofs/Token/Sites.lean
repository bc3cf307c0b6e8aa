import ScriptReader.Proofs.Token.Nesting

/-!
# Where tokens stand among brackets

A token stands directly in the innermost bracket that is open around it.  If brackets are well
nested, and blocks on their own are, then both are well nested together just if no block starts in a
pair of brackets and ends out of it, or the other way round.

## Main Definitions

* `openAfter` — the brackets that are open after one more token
* `sites` — the brackets that tokens of certain kinds stand directly in
* `blockSites` — the brackets that the marks of blocks stand directly in
* `HoldsBlocks` — pairs of a kind of brackets hold the blocks that start or end in them

## Main Statements

* `sites_congr` — only brackets and the kinds that are looked for matter
* `nestedIn_cons_indent_iff` — blocks are well nested with brackets if each pair holds its blocks
* `holdsBlocks_of_bare` — pairs that no mark of a block stands directly in hold their blocks

## Design Notes

Blocks and brackets each close in order, and can still overlap.  A pair holds its blocks if what is
in it is well nested as far as blocks are concerned, whatever is around it; so what is put together
from pairs that hold their blocks can be read as if the brackets were not there.
-/

namespace ScriptReader

/-- The brackets that are open after a token of kind `k`, the innermost first.  A closing bracket
closes only an opening one of its own type. -/
def openAfter (opened : List TokenKind) (k : TokenKind) : List TokenKind :=
  if k ∈ brackets then k :: opened
  else if (opened.head?, k) ∈ [(some .openParen, .closeParen), (some .openBracket, .closeBracket),
      (some .openBrace, .closeBrace)] then opened.tail
  else opened

/-- For each of the kinds that is looked for, the innermost bracket open around it, if any.  What
stands in `opened` is open at first. -/
def sites (looked : TokenKind → Bool) (opened : List TokenKind) :
    List TokenKind → List (Option TokenKind)
  | [] => []
  | k :: ks =>
    let rest := sites looked (openAfter opened k) ks
    if looked k then opened.head? :: rest else rest

/-- For each mark of a block, the innermost bracket open around it, if any. -/
def blockSites (ks : List TokenKind) : List (Option TokenKind) := sites TokenKind.isBlockMark [] ks

/-- Each pair that the kind `o` opens holds its blocks: none that starts in it is left open where it
closes, and none ends in it that started before it. -/
def HoldsBlocks (pairs : List TokenKind) (o : TokenKind) (ks : List TokenKind) : Prop :=
  ∀ before inner c after, ks = before ++ o :: (inner ++ c :: after) → c.partner? = some o →
    NestedIn pairs inner → NestedIn [.indent] inner

variable {looked : TokenKind → Bool} {pairs bare opened left base inner ks ls : List TokenKind}
  {k o c : TokenKind}

/-! ## Brackets that are open -/

theorem openAfter_of_not_isBracket (hk : k.isBracket = false) : openAfter opened k = opened := by
  cases k <;> first
    | exact absurd hk (by decide)
    | simp [openAfter, brackets]

theorem foldl_openAfter_of_not_isBracket (hks : ∀ k ∈ ks, k.isBracket = false) :
    ks.foldl openAfter opened = opened := by
  induction ks with
  | nil => rfl
  | cons k ks ih =>
    obtain ⟨hk, hrest⟩ := List.forall_mem_cons.1 hks
    rw [List.foldl_cons, openAfter_of_not_isBracket hk]
    exact ih hrest

/-- Where reading a bracket does not fail it does to what is open what passing it over would. -/
theorem openAfter_of_readPair (h : readPair brackets opened k = some left) :
    openAfter opened k = left := by
  rcases isPaired_cases brackets k with hk | ⟨hk, o, ho, hpartner⟩ | hk
  · rw [readPair_of_mem hk, Option.some_inj] at h
    rw [openAfter, if_pos hk, h]
  · rw [readPair_of_partner hk hpartner ho] at h
    subst h
    rw [openAfter, if_neg hk, if_pos, List.tail_cons]
    rw [List.head?_cons]
    cases k <;> cases hpartner <;> first
      | decide
      | exact absurd ho (by decide)
  · rw [readPair_of_not_isPaired hk, Option.some_inj] at h
    rw [openAfter_of_not_isBracket hk, h]

theorem foldl_openAfter_of_unclosed (h : unclosed brackets opened ks = some left) :
    ks.foldl openAfter opened = left := by
  induction ks generalizing opened with
  | nil => exact Option.some.inj h
  | cons k ks ih =>
    rw [unclosed_cons, Option.bind_eq_some_iff] at h
    obtain ⟨middle, hread, hrest⟩ := h
    rw [List.foldl_cons, openAfter_of_readPair hread]
    exact ih hrest

/-! ## Sites -/

theorem sites_cons_of_looked (hk : looked k) :
    sites looked opened (k :: ks) =
      opened.head? :: sites looked (openAfter opened k) ks := by
  rw [sites, if_pos hk]

theorem sites_cons_of_not_looked (hk : looked k = false) :
    sites looked opened (k :: ks) = sites looked (openAfter opened k) ks := by
  rw [sites, if_neg (by simp [hk])]

theorem mem_sites_cons {site : Option TokenKind}
    (h : site ∈ sites looked (openAfter opened k) ks) :
    site ∈ sites looked opened (k :: ks) := by
  rw [sites]
  split
  case isTrue => exact List.mem_cons_of_mem _ h
  case isFalse => exact h

/-- Kinds that are no brackets stand where the first of them does. -/
theorem eq_head?_of_mem_sites {site : Option TokenKind} (hks : ∀ k ∈ ks, k.isBracket = false)
    (hsite : site ∈ sites looked opened ks) : site = opened.head? := by
  induction ks with
  | nil => exact absurd hsite List.not_mem_nil
  | cons k ks ih =>
    obtain ⟨hk, hrest⟩ := List.forall_mem_cons.1 hks
    rw [sites, openAfter_of_not_isBracket hk] at hsite
    split at hsite
    case isTrue =>
      rcases List.mem_cons.1 hsite with hhere | hlater
      · exact hhere
      · exact ih hrest hlater
    case isFalse => exact ih hrest hsite

theorem sites_append :
    sites looked opened (ks ++ ls) =
      sites looked opened ks ++ sites looked (ks.foldl openAfter opened) ls := by
  induction ks generalizing opened with
  | nil => rfl
  | cons k ks ih =>
    rw [List.cons_append, List.foldl_cons]
    by_cases hk : looked k
    · rw [sites_cons_of_looked hk, sites_cons_of_looked hk, ih, List.cons_append]
    · rw [Bool.not_eq_true] at hk
      rw [sites_cons_of_not_looked hk, sites_cons_of_not_looked hk, ih]

/-- Kinds that are neither brackets nor looked for may be left out. -/
theorem sites_filter {counts : TokenKind → Bool} (hlooked : ∀ k, looked k → counts k)
    (hbracket : ∀ k : TokenKind, k.isBracket → counts k) :
    sites looked opened (ks.filter counts) = sites looked opened ks := by
  induction ks generalizing opened with
  | nil => rfl
  | cons k ks ih =>
    by_cases hk : counts k
    · rw [List.filter_cons_of_pos hk, sites, sites, ih]
    · have hnot : looked k = false := by
        rw [Bool.eq_false_iff]
        exact fun h => hk (hlooked k h)
      have hskip : k.isBracket = false := by
        rw [Bool.eq_false_iff]
        exact fun h => hk (hbracket k h)
      rw [List.filter_cons_of_neg hk, sites_cons_of_not_looked hnot,
        openAfter_of_not_isBracket hskip, ih]

/-- Tokens that agree on brackets and on what is looked for have it in the same places. -/
theorem sites_congr {counts : TokenKind → Bool} {ts us : List Token}
    (hlooked : ∀ k, looked k → counts k) (hbracket : ∀ k : TokenKind, k.isBracket → counts k)
    (h : us.filter (fun t => counts t.kind) = ts.filter fun t => counts t.kind) :
    sites looked opened (us.map Token.kind) = sites looked opened (ts.map Token.kind) := by
  have hfilter (vs : List Token) : sites looked opened (vs.map Token.kind) =
      sites looked opened ((vs.filter fun t => counts t.kind).map Token.kind) := by
    rw [← sites_filter hlooked hbracket, List.filter_map]
    rfl
  rw [hfilter us, hfilter ts, h]

/-! ## Pairs that hold their blocks -/

namespace HoldsBlocks

variable {p : TokenKind}

theorem of_isInfix (h : HoldsBlocks pairs o ks) (hls : ls <:+: ks) :
    HoldsBlocks pairs o ls := by
  rintro before inner c after rfl hpartner hinner
  obtain ⟨front, back, rfl⟩ := hls
  exact h (front ++ before) inner c (after ++ back) (by simp) hpartner hinner

theorem inside (h : HoldsBlocks pairs p (o :: (inner ++ c :: ks))) : HoldsBlocks pairs p inner :=
  h.of_isInfix ⟨[o], c :: ks, by simp⟩

theorem rest (h : HoldsBlocks pairs p (o :: (inner ++ c :: ks))) : HoldsBlocks pairs p ks :=
  h.of_isInfix ⟨o :: (inner ++ [c]), [], by simp⟩

/-- A pair holds its blocks whatever other pairs are looked at. -/
theorem of_subset {pairs' : List TokenKind} (h : HoldsBlocks pairs' o ks)
    (hsub : ∀ k ∈ pairs', k ∈ pairs) (hopens : ∀ k ∈ pairs, k.partner? = none) :
    HoldsBlocks pairs o ks := by
  intro before inner c after hks hpartner hinner
  exact h before inner c after hks hpartner (hinner.of_subset hsub hopens)

end HoldsBlocks

/-- No bracket is the mark of a block. -/
theorem isPaired_indent_of_mem (ho : o ∈ brackets) : o.isPaired [.indent] = false := by
  revert ho
  cases o <;> decide

theorem isPaired_indent_of_partner (ho : o ∈ brackets) (hpartner : c.partner? = some o) :
    c.isPaired [.indent] = false := by
  cases c <;> cases hpartner <;> first
    | rfl
    | exact absurd ho (by decide)

/-- As far as blocks are concerned, brackets may be left out. -/
theorem unclosed_indent_pair (ho : o ∈ brackets) (hpartner : c.partner? = some o)
    (hinner : NestedIn [.indent] inner) :
    unclosed [.indent] opened (o :: (inner ++ c :: ks)) = unclosed [.indent] opened ks := by
  rw [unclosed_cons_of_not_isPaired (isPaired_indent_of_mem ho), unclosed_append,
    hinner.unclosed_eq, Option.bind_some,
    unclosed_cons_of_not_isPaired (isPaired_indent_of_partner ho hpartner)]

/-- What does not count for brackets is read as it is among blocks alone. -/
theorem readPair_cons_indent (hk : k.isPaired pairs = false) :
    readPair (.indent :: pairs) opened k = readPair [.indent] opened k := by
  rcases isPaired_cases [.indent] k with hmark | ⟨hmark, o, ho, hpartner⟩ | hmark
  · rw [readPair_of_mem hmark, readPair_of_mem (List.mem_cons.2 (.inl (by simpa using hmark)))]
  · have hnot : k ∉ .indent :: pairs := by
      rw [TokenKind.isPaired, Bool.or_eq_false_iff] at hk
      simpa using ⟨by simpa using hmark, by simpa using hk.1⟩
    refine Option.ext fun left => ?_
    rw [readPair_of_partner hmark hpartner ho,
      readPair_of_partner hnot hpartner (List.mem_cons.2 (.inl (by simpa using ho)))]
  · have hneither : k.isPaired (.indent :: pairs) = false := by
      simp only [TokenKind.isPaired, Bool.or_eq_false_iff] at hk hmark ⊢
      cases hpartner : k.partner? <;> simp_all
    rw [readPair_of_not_isPaired hmark, readPair_of_not_isPaired hneither]

section Pairs

variable (hpairs : ∀ k ∈ pairs, k ∈ brackets)

include hpairs

/-- What closes something opens nothing. -/
theorem not_mem_of_partner (hpartner : c.partner? = some o) : c ∉ .indent :: pairs := by
  intro hmem
  rcases List.mem_cons.1 hmem with rfl | hmem
  · simp [TokenKind.partner?] at hpartner
  · have hnone : ∀ k ∈ brackets, k.partner? = none := by decide
    simp [hnone c (hpairs c hmem)] at hpartner

/-- What is put together from pairs that hold their blocks is read as if there were blocks alone. -/
theorem Grouped.unclosed_eq (h : Grouped pairs ks) (hholds : ∀ o ∈ pairs, HoldsBlocks pairs o ks) :
    unclosed (.indent :: pairs) opened ks = unclosed [.indent] opened ks := by
  induction h generalizing opened with
  | nil => rfl
  | single skip rest ih =>
    rw [unclosed_cons, unclosed_cons, readPair_cons_indent skip]
    congr 1
    funext opened
    exact ih fun o ho => (hholds o ho).of_isInfix (List.suffix_cons _ _).isInfix
  | @pair o c inner ks opens closes partner inside rest ihInside ih =>
    have hblocks : NestedIn [.indent] inner :=
      hholds o opens [] inner c ks rfl partner inside.nestedIn
    have hinner : NestedIn (.indent :: pairs) inner :=
      (ihInside fun p hp => (hholds p hp).inside).trans hblocks
    have hcloses : c ∉ .indent :: pairs := not_mem_of_partner hpairs partner
    rw [unclosed_pair (List.mem_cons_of_mem _ opens) hcloses partner hinner,
      unclosed_indent_pair (hpairs o opens) partner hblocks]
    exact ih fun p hp => (hholds p hp).rest

omit hpairs in
/-- Where a bracket is innermost, no block has been opened since. -/
theorem eq_zero_of_cons_eq {m : Nat} (ho : o ≠ .indent)
    (h : o :: left = List.replicate m .indent ++ o :: base) : m = 0 ∧ left = base := by
  cases m with
  | zero => exact ⟨rfl, (List.cons.inj h).2⟩
  | succ m => exact absurd (List.cons.inj h).1 ho

/-- As long as a pair is open, only blocks that have been opened in it can be closed.  There are `n`
of these at first, and they are what is innermost. -/
theorem Grouped.exists_unclosed_indent {n : Nat} (ho : o ∈ pairs) (h : Grouped pairs inner)
    (hread : unclosed (.indent :: pairs) (List.replicate n .indent ++ o :: base) inner =
      some left) :
    ∃ m, left = List.replicate m .indent ++ o :: base ∧
      unclosed [.indent] (List.replicate n .indent) inner = some (List.replicate m .indent) := by
  have hmark : .indent ∉ pairs := fun hmem => absurd (hpairs _ hmem) (by decide)
  induction h generalizing n o base left with
  | nil =>
    obtain rfl := Option.some.inj hread
    exact ⟨n, rfl, rfl⟩
  | @single k ks skip rest ih =>
    rw [unclosed_cons, readPair_cons_indent skip, Option.bind_eq_some_iff] at hread
    obtain ⟨opened, hopened, hrest⟩ := hread
    rw [unclosed_cons]
    rcases isPaired_cases [.indent] k with hk | ⟨hk, p, hp, hpartner⟩ | hk
    · obtain rfl := List.mem_singleton.1 hk
      rw [readPair_of_mem hk, Option.some_inj] at hopened
      subst hopened
      rw [readPair_of_mem hk]
      exact ih (n := n + 1) ho hrest
    · obtain rfl := List.mem_singleton.1 hp
      rw [readPair_of_partner hk hpartner hp] at hopened
      cases n with
      | zero => exact absurd ((List.cons.inj hopened).1 ▸ ho) hmark
      | succ n =>
        obtain ⟨-, rfl⟩ := List.cons.inj hopened
        rw [(readPair_of_partner hk hpartner hp).2 List.replicate_succ]
        exact ih ho hrest
    · rw [readPair_of_not_isPaired hk, Option.some_inj] at hopened
      subst hopened
      rw [readPair_of_not_isPaired hk]
      exact ih ho hrest
  | @pair p c inner ks opens closes partner inside rest ihInside ih =>
    rw [unclosed_pair_eq_some_iff (List.mem_cons_of_mem _ opens) (not_mem_of_partner hpairs partner)
      partner] at hread
    obtain ⟨middle, hinside, hrest⟩ := hread
    obtain ⟨m, hmiddle, hblocks⟩ := ihInside (n := 0) opens hinside
    obtain ⟨rfl, rfl⟩ := eq_zero_of_cons_eq (ne_of_mem_of_not_mem opens hmark) hmiddle
    rw [unclosed_indent_pair (hpairs p opens) partner hblocks]
    exact ih ho hrest

/-- **Brackets and blocks are well nested together just if each pair of brackets holds its blocks**,
given that each of them are well nested on their own. -/
theorem nestedIn_cons_indent_iff (hks : NestedIn pairs ks) (hblocks : NestedIn [.indent] ks) :
    NestedIn (.indent :: pairs) ks ↔ ∀ o ∈ pairs, HoldsBlocks pairs o ks := by
  have hmark : .indent ∉ pairs := fun hmem => absurd (hpairs _ hmem) (by decide)
  constructor
  · rintro h o ho before inner c after rfl hpartner hinner
    rw [NestedIn, unclosed_append, Option.bind_eq_some_iff] at h
    obtain ⟨base, -, h⟩ := h
    rw [unclosed_pair_eq_some_iff (List.mem_cons_of_mem _ ho) (not_mem_of_partner hpairs hpartner)
      hpartner] at h
    obtain ⟨middle, hread, -⟩ := h
    obtain ⟨m, hmiddle, hblocks⟩ := hinner.grouped.exists_unclosed_indent hpairs (n := 0) ho hread
    obtain ⟨rfl, -⟩ := eq_zero_of_cons_eq (ne_of_mem_of_not_mem ho hmark) hmiddle
    exact hblocks
  · intro hholds
    exact (hks.grouped.unclosed_eq hpairs hholds).trans hblocks

end Pairs

/-! ## Brackets that no block starts or ends in -/

/-- Blocks are well nested in a pair that no mark of a block stands directly in, if all pairs in it
hold their blocks but perhaps those of kinds that no mark stands directly in. -/
theorem Grouped.nestedIn_indent (h : Grouped brackets inner) (ho : o ∈ bare)
    (hbare : ∀ p ∈ bare, some p ∉ sites TokenKind.isBlockMark (o :: base) inner)
    (hholds : ∀ p ∈ brackets, p ∈ bare ∨ HoldsBlocks brackets p inner) :
    NestedIn [.indent] inner := by
  induction h generalizing o base with
  | nil => rfl
  | @single k ks skip rest ih =>
    have hmark : k.isBlockMark = false := by
      rw [Bool.eq_false_iff]
      intro hk
      refine hbare o ho ?_
      rw [sites_cons_of_looked hk]
      exact List.mem_cons_self
    have hskip : k.isBracket = false := skip
    rw [NestedIn, unclosed_cons_of_not_isPaired hmark]
    simp only [sites_cons_of_not_looked hmark, openAfter_of_not_isBracket hskip] at hbare
    exact ih ho hbare fun p hp =>
      (hholds p hp).imp_right fun h => h.of_isInfix (List.suffix_cons _ _).isInfix
  | @pair p c inner ks opens closes partner inside rest ihInside ih =>
    have hopen : p.isBlockMark = false := isPaired_indent_of_mem opens
    have hclose : c.isBlockMark = false := isPaired_indent_of_partner opens partner
    have hread : readPair brackets (p :: o :: base) c = some (o :: base) :=
      (readPair_of_partner closes partner opens).2 rfl
    have hsites : sites TokenKind.isBlockMark (o :: base) (p :: (inner ++ c :: ks)) =
        sites TokenKind.isBlockMark (p :: o :: base) inner ++
          sites TokenKind.isBlockMark (o :: base) ks := by
      rw [sites_cons_of_not_looked hopen, openAfter_of_readPair (readPair_of_mem opens),
        sites_append, foldl_openAfter_of_unclosed inside.nestedIn.unclosed_eq,
        sites_cons_of_not_looked hclose, openAfter_of_readPair hread]
    simp only [hsites, List.mem_append, not_or] at hbare
    have hinner : NestedIn [.indent] inner := by
      rcases hholds p opens with hp | hp
      · exact ihInside hp (fun q hq => (hbare q hq).1) fun q hq =>
          (hholds q hq).imp_right HoldsBlocks.inside
      · exact hp [] inner c ks rfl partner inside.nestedIn
    rw [NestedIn, unclosed_indent_pair opens partner hinner]
    exact ih ho (fun q hq => (hbare q hq).2) fun q hq =>
      (hholds q hq).imp_right HoldsBlocks.rest

/-- Pairs of brackets hold their blocks if those of some kinds do, and no mark of a block stands
directly in those of other kinds. -/
theorem holdsBlocks_of_bare (bare : List TokenKind) (hbare : ∀ o ∈ bare, some o ∉ blockSites ks)
    (hholds : ∀ o ∈ brackets, o ∈ bare ∨ HoldsBlocks brackets o ks) (ho : o ∈ brackets) :
    HoldsBlocks brackets o ks := by
  rcases hholds o ho with hmem | hmem
  · rintro before inner c after rfl hpartner hinner
    have hopen : o.isBlockMark = false := isPaired_indent_of_mem ho
    have hinside : ∀ p ∈ bare,
        some p ∉ sites TokenKind.isBlockMark (o :: before.foldl openAfter []) inner := by
      intro p hp hsite
      refine hbare p hp ?_
      rw [blockSites, sites_append, List.mem_append, sites_cons_of_not_looked hopen,
        openAfter_of_readPair (readPair_of_mem ho), sites_append, List.mem_append]
      exact .inr (.inl hsite)
    exact hinner.grouped.nestedIn_indent hmem hinside fun p hp =>
      (hholds p hp).imp_right fun h => h.of_isInfix ⟨before ++ [o], c :: after, by simp⟩
  · exact hmem

end ScriptReader
