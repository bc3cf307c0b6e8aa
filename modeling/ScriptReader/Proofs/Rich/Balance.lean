import Mathlib.Algebra.Ring.Parity
import Mathlib.Data.List.DropRight
import Mathlib.Data.Nat.Count
import ScriptReader.Rich.Body
import ScriptReader.Proofs.Text.Octets

/-!
# Bodies are balanced

Where the code of an interpolation ends can be told by looking at the whole of what follows its
opening brace: it ends before the first closing brace up to which as many braces were opened as
closed.  Braces between quotation marks do not count, and which bytes these are is told by the marks
alone.  This module shows that the scan, which reads one character at a time and remembers no more
than a depth, a mark and a flag, stops at just that brace.

## Main Definitions

* `Rich.IsQuoted` — a byte stands between quotation marks
* `Rich.Closes` — a closing brace with equally many opening and closing braces before it
* `Rich.IsBody` — bytes that reach to the first such brace
* `Rich.Memory` — what the scan remembers of quotation marks
* `Rich.Remembers` — what the scan remembers is true

## Main Statements

* `Rich.Remembers.after` — reading a byte keeps it true
* `Rich.finds_scanBytes` — the scan, begun anywhere with a true memory, finds the first such brace
* `Rich.bytes_bodyFrom` — reading characters finds what reading bytes finds
* `Rich.isBodyAt_bodyAt` — the body at an offset is balanced

## Design Notes

Whether a byte is quoted is asked of the bytes before it only, so the definition recurses on the
position.  The mark that opens a stretch is not quoted by it, and the mark that ends it is.
-/

namespace ScriptReader.Rich

variable {bs : List UInt8} {b q : UInt8} {i j k x : Nat}

/-! ## Bytes between quotation marks -/

/-- The bytes that open a stretch of quoted bytes. -/
def IsMark (b : UInt8) : Prop := b = '\''.toUInt8 ∨ b = '"'.toUInt8

instance : DecidablePred IsMark := fun _ => instDecidableOr

/-- How many backslashes stand right before `j`, in a row, in the stretch that `i` opens. -/
def backslashes (bs : List UInt8) (i j : Nat) : Nat :=
  (((bs.take j).drop (i + 1)).rtakeWhile (· = '\\'.toUInt8)).length

/-- At `j` the mark at `i` stands again, and the backslashes before it leave it its meaning. -/
def Answers (bs : List UInt8) (i j : Nat) : Prop :=
  bs[j]? = bs[i]? ∧ ¬ Odd (backslashes bs i j)

/-- The byte at `x` lies in a stretch that an unquoted mark opens and that has not ended before. -/
def IsQuoted (bs : List UInt8) (x : Nat) : Prop :=
  ∃ i, ∃ _ : i < x, (∃ q, bs[i]? = some q ∧ IsMark q) ∧ ¬ IsQuoted bs i ∧
    ∀ j, i < j → j < x → ¬ Answers bs i j
  termination_by x

/-- An unquoted mark at `i` is the last one that was not answered before `x`. -/
structure Opens (bs : List UInt8) (i x : Nat) (q : UInt8) : Prop where
  lt : i < x
  getElem? : bs[i]? = some q
  isMark : IsMark q
  bare : ¬ IsQuoted bs i
  unanswered : ∀ j, i < j → j < x → ¬ Answers bs i j

theorem isQuoted_iff : IsQuoted bs x ↔ ∃ i q, Opens bs i x q := by
  rw [IsQuoted]
  constructor
  · rintro ⟨i, hlt, ⟨q, hi, hq⟩, hbare, hopen⟩
    exact ⟨i, q, hlt, hi, hq, hbare, hopen⟩
  · rintro ⟨i, q, hlt, hi, hq, hbare, hopen⟩
    exact ⟨i, hlt, ⟨q, hi, hq⟩, hbare, hopen⟩

theorem Opens.mono (h : Opens bs i x q) (hi : i < k) (hk : k ≤ x) : Opens bs i k q :=
  ⟨hi, h.getElem?, h.isMark, h.bare, fun j hj hjk => h.unanswered j hj (hjk.trans_le hk)⟩

/-- Quoted stretches do not overlap: of two marks that are open at once, each would quote the
other. -/
theorem Opens.unique {p : UInt8} (h : Opens bs i x q) (h' : Opens bs j x p) : i = j := by
  rcases Nat.lt_trichotomy i j with hlt | heq | hlt
  · exact absurd (isQuoted_iff.2 ⟨i, q, h.mono hlt h'.lt.le⟩) h'.bare
  · exact heq
  · exact absurd (isQuoted_iff.2 ⟨j, p, h'.mono hlt h.lt.le⟩) h.bare

/-- A stretch begins only with a mark. -/
theorem not_isQuoted_succ (hbare : ¬ IsQuoted bs x) (hmark : ∀ b, bs[x]? = some b → ¬ IsMark b) :
    ¬ IsQuoted bs (x + 1) := by
  intro hquoted
  obtain ⟨i, q, hopen⟩ := isQuoted_iff.1 hquoted
  rcases Nat.lt_succ_iff_lt_or_eq.1 hopen.lt with hlt | rfl
  · exact hbare (isQuoted_iff.2 ⟨i, q, hopen.mono hlt x.le_succ⟩)
  · exact hmark q hopen.getElem? hopen.isMark

/-- A stretch ends where its mark is answered, and no other begins there. -/
theorem Opens.not_isQuoted_succ (h : Opens bs i x q) (hanswer : Answers bs i x) :
    ¬ IsQuoted bs (x + 1) := by
  intro hquoted
  obtain ⟨j, p, hopen⟩ := isQuoted_iff.1 hquoted
  rcases Nat.lt_succ_iff_lt_or_eq.1 hopen.lt with hlt | rfl
  · have hsame : j = i := (hopen.mono hlt x.le_succ).unique h
    exact hopen.unanswered x hlt x.lt_succ_self (hsame ▸ hanswer)
  · exact hopen.bare (isQuoted_iff.2 ⟨i, q, h⟩)

/-- A stretch goes on until its mark is answered. -/
theorem Opens.succ (h : Opens bs i x q) (hanswer : ¬ Answers bs i x) : Opens bs i (x + 1) q where
  lt := h.lt.trans x.lt_succ_self
  getElem? := h.getElem?
  isMark := h.isMark
  bare := h.bare
  unanswered j hj hjx := by
    rcases Nat.lt_succ_iff_lt_or_eq.1 hjx with hlt | rfl
    · exact h.unanswered j hj hlt
    · exact hanswer

theorem Opens.answers_iff (h : Opens bs i x q) :
    Answers bs i x ↔ bs[x]? = some q ∧ ¬ Odd (backslashes bs i x) := by
  rw [Answers, h.getElem?]

@[simp] theorem backslashes_self : backslashes bs i (i + 1) = 0 := by
  have hnone : (bs.take (i + 1)).drop (i + 1) = [] :=
    List.drop_eq_nil_of_le (List.length_take_le _ _)
  rw [backslashes, hnone]
  rfl

theorem backslashes_succ (hi : i < x) (hb : bs[x]? = some b) :
    backslashes bs i (x + 1) = if b = '\\'.toUInt8 then backslashes bs i x + 1 else 0 := by
  obtain ⟨hlt, rfl⟩ := List.getElem?_eq_some_iff.1 hb
  have htake : (bs.take (x + 1)).drop (i + 1) = (bs.take x).drop (i + 1) ++ [bs[x]] := by
    rw [List.take_succ_eq_append_getElem hlt, List.drop_append_of_le_length]
    rw [List.length_take]
    omega
  rw [backslashes, htake, List.rtakeWhile_concat]
  split <;> rename_i hslash <;> simp_all [backslashes]

/-! ## What the scan remembers of them -/

/-- What the scan remembers of the bytes it has read: the mark that it is behind, if any, and
whether a backslash takes away the meaning of the next byte. -/
structure Memory where
  mark : Option UInt8
  escaped : Bool
  deriving DecidableEq, Repr

/-- Outside of all quotation marks. -/
def Memory.start : Memory := ⟨none, false⟩

/-- What the scan remembers once it has read one more byte. -/
def Memory.after (m : Memory) (b : UInt8) : Memory :=
  match m.mark with
  | some q =>
    if b = q ∧ ¬ m.escaped then ⟨none, false⟩ else ⟨some q, b = '\\'.toUInt8 ∧ ¬ m.escaped⟩
  | none => if IsMark b then ⟨some b, false⟩ else ⟨none, false⟩

@[simp] theorem Memory.after_outside (escaped : Bool) (b : UInt8) :
    (⟨none, escaped⟩ : Memory).after b = if IsMark b then ⟨some b, false⟩ else ⟨none, false⟩ := rfl

@[simp] theorem Memory.after_inside (q : UInt8) (escaped : Bool) (b : UInt8) :
    (⟨some q, escaped⟩ : Memory).after b = if b = q ∧ ¬ escaped then ⟨none, false⟩
      else ⟨some q, b = '\\'.toUInt8 ∧ ¬ escaped⟩ := rfl

/-- What the scan remembers is true of the place it has come to. -/
inductive Remembers (bs : List UInt8) (x : Nat) : Memory → Prop
  | outside : ¬ IsQuoted bs x → Remembers bs x ⟨none, false⟩
  | inside {i q escaped} : Opens bs i x q → (escaped = true ↔ Odd (backslashes bs i x)) →
      Remembers bs x ⟨some q, escaped⟩

namespace Remembers

variable {m : Memory}

theorem isSome_mark_iff (h : Remembers bs x m) : m.mark.isSome ↔ IsQuoted bs x := by
  cases h with
  | outside hbare => simpa using hbare
  | inside hopen _ => simpa using isQuoted_iff.2 ⟨_, _, hopen⟩

theorem start (bs : List UInt8) : Remembers bs 0 .start := by
  refine .outside fun h => ?_
  obtain ⟨i, q, hopen⟩ := isQuoted_iff.1 h
  exact Nat.not_lt_zero i hopen.lt

/-- Reading a byte keeps the memory of the scan true. -/
theorem after (h : Remembers bs x m) (hb : bs[x]? = some b) : Remembers bs (x + 1) (m.after b) := by
  cases h with
  | outside hbare =>
    by_cases hmark : IsMark b
    · have hopen : Opens bs x (x + 1) b :=
        ⟨x.lt_succ_self, hb, hmark, hbare, fun j hj hjx => absurd hj (by omega)⟩
      rw [Memory.after_outside, if_pos hmark]
      exact .inside hopen (by simp)
    · have hstill : ¬ IsQuoted bs (x + 1) :=
        not_isQuoted_succ hbare fun b' hb' => Option.some.inj (hb.symm.trans hb') ▸ hmark
      rw [Memory.after_outside, if_neg hmark]
      exact .outside hstill
  | @inside i q escaped hopen hescaped =>
    have hanswers : Answers bs i x ↔ b = q ∧ ¬ escaped := by
      rw [hopen.answers_iff, hb, Option.some.injEq, hescaped]
    by_cases hend : b = q ∧ ¬ escaped
    · rw [Memory.after_inside, if_pos hend]
      exact .outside (hopen.not_isQuoted_succ (hanswers.2 hend))
    · -- A backslash makes the row of them longer, any other byte ends it: parity is the flag.
      have hrun : decide (b = '\\'.toUInt8 ∧ ¬ escaped) = true ↔
          Odd (backslashes bs i (x + 1)) := by
        rw [backslashes_succ hopen.lt hb]
        split
        case isTrue hslash => simp [hslash, Nat.odd_add_one, ← hescaped]
        case isFalse hslash => simp [hslash]
      rw [Memory.after_inside, if_neg hend]
      exact .inside (hopen.succ (hanswers.not.2 hend)) hrun

/-- Past the last byte there is nothing to forget or to learn. -/
theorem past (h : Remembers bs x m) (hx : bs[x]? = none) : Remembers bs (x + 1) m := by
  have hlength : bs.length ≤ x := List.getElem?_eq_none_iff.1 hx
  cases h with
  | outside hbare => exact .outside (not_isQuoted_succ hbare fun b hb => by simp [hx] at hb)
  | @inside i q escaped hopen hescaped =>
    have hunanswered : ¬ Answers bs i x := by simp [hopen.answers_iff, hx]
    refine .inside (hopen.succ hunanswered) (hescaped.trans ?_)
    rw [backslashes, backslashes, List.take_of_length_le hlength,
      List.take_of_length_le (hlength.trans x.le_succ)]

theorem foldl (bs : List UInt8) (x : Nat) :
    Remembers bs x ((bs.take x).foldl Memory.after .start) := by
  induction x with
  | zero => exact start bs
  | succ x ih =>
    rw [List.take_add_one, List.foldl_append]
    cases hb : bs[x]? with
    | none => exact ih.past hb
    | some b => exact ih.after hb

end Remembers

instance : DecidablePred (IsQuoted bs) := fun x =>
  decidable_of_iff _ (Remembers.foldl bs x).isSome_mark_iff

/-! ## Braces that count -/

/-- A byte `b` stands at `x`, outside of all quotation marks. -/
def Bare (bs : List UInt8) (b : UInt8) (x : Nat) : Prop := bs[x]? = some b ∧ ¬ IsQuoted bs x

instance : DecidablePred (Bare bs b) := fun _ => instDecidableAnd

/-- The braces opened before `x`. -/
def opened (bs : List UInt8) (x : Nat) : Nat := Nat.count (Bare bs '{'.toUInt8) x

/-- The braces closed before `x`. -/
def closed (bs : List UInt8) (x : Nat) : Nat := Nat.count (Bare bs '}'.toUInt8) x

/-- At `x` a brace is closed before which as many were opened as closed. -/
def Closes (bs : List UInt8) (x : Nat) : Prop :=
  Bare bs '}'.toUInt8 x ∧ opened bs x = closed bs x

instance : DecidablePred (Closes bs) := fun _ => instDecidableAnd

/-- `body` is what comes before the brace that closes the brace before `rest`. -/
structure IsBody (rest body : List UInt8) : Prop where
  /-- The first closing brace that is not answered by an opening one ends the body. -/
  closed_at : ∀ i, Closes rest i → (∀ j < i, ¬ Closes rest j) → body = rest.take i
  /-- Without such a brace the body does not end. -/
  unclosed : (∀ i, ¬ Closes rest i) → body = rest
  /-- A counter that begins at one, for the brace before `rest`, and that every opening brace raises
  and every closing brace lowers, is still positive wherever a byte of the body has been read. -/
  counter_pos : ∀ i ≤ body.length, closed rest i < 1 + opened rest i

/-! ## Scanning bytes -/

/-- The scan for the end of a body, as it goes over bytes. -/
def scanBytes : List UInt8 → (depth : Nat) → Memory → List UInt8
  | [], _, _ => []
  | b :: bs, depth, m =>
    if m.mark = none ∧ b = '{'.toUInt8 then b :: scanBytes bs (depth + 1) (m.after b)
    else if m.mark = none ∧ b = '}'.toUInt8 then
      match depth with
      | 0 => []
      | depth + 1 => b :: scanBytes bs depth (m.after b)
    else b :: scanBytes bs depth (m.after b)

theorem scanBytes_of_not_brace {m : Memory} {depth : Nat}
    (hopen : ¬ (m.mark = none ∧ b = '{'.toUInt8))
    (hclose : ¬ (m.mark = none ∧ b = '}'.toUInt8)) (bs : List UInt8) :
    scanBytes (b :: bs) depth m = b :: scanBytes bs depth (m.after b) := by
  rw [scanBytes.eq_def]
  simp only [if_neg hopen, if_neg hclose]

/-- `found` is what comes from `x` on, up to the first brace that closes more than was opened. -/
structure Finds (bs : List UInt8) (x : Nat) (found : List UInt8) : Prop where
  isPrefix : found <+: bs.drop x
  closes : x + found.length < bs.length → Closes bs (x + found.length)
  before : ∀ j, x ≤ j → j < x + found.length → ¬ Closes bs j
  counter : ∀ j, x ≤ j → j ≤ x + found.length → closed bs j ≤ opened bs j

namespace Finds

variable {found : List UInt8}

theorem nil (hclosed : closed bs x ≤ opened bs x) (h : x < bs.length → Closes bs x) :
    Finds bs x [] where
  isPrefix := List.nil_prefix
  closes := h
  before _ hxj hjx := absurd hjx (Nat.not_lt.2 hxj)
  counter _ hxj hjx := Nat.le_antisymm hjx hxj ▸ hclosed

theorem cons (h : Finds bs (x + 1) found) (hb : bs[x]? = some b) (hnot : ¬ Closes bs x)
    (hclosed : closed bs x ≤ opened bs x) : Finds bs x (b :: found) where
  isPrefix := by
    obtain ⟨hlt, rfl⟩ := List.getElem?_eq_some_iff.1 hb
    rw [List.drop_eq_getElem_cons hlt]
    exact List.cons_prefix_cons.2 ⟨rfl, h.isPrefix⟩
  closes := by
    rw [List.length_cons, ← Nat.succ_add_eq_add_succ]
    exact h.closes
  before j hxj hjx := by
    rcases Nat.eq_or_lt_of_le hxj with rfl | hlt
    · exact hnot
    · exact h.before j hlt (by rw [List.length_cons] at hjx; omega)
  counter j hxj hjx := by
    rcases Nat.eq_or_lt_of_le hxj with rfl | hlt
    · exact hclosed
    · exact h.counter j hlt (by rw [List.length_cons] at hjx; omega)

/-- What is found from the first byte on is the body. -/
theorem isBody (h : Finds bs 0 found) : IsBody bs found where
  closed_at i hcloses hfirst := by
    have hfound : found = bs.take found.length := List.prefix_iff_eq_take.1 h.isPrefix
    have hlt : i < bs.length := (List.getElem?_eq_some_iff.1 hcloses.1.1).1
    have hle : found.length ≤ i := by
      by_contra hgt
      exact h.before i i.zero_le (by omega) hcloses
    have hge : i ≤ found.length := by
      by_contra hgt
      have hat := h.closes (by omega)
      rw [Nat.zero_add] at hat
      exact hfirst _ (by omega) hat
    rw [hfound, Nat.le_antisymm hle hge]
  unclosed hnone := by
    refine h.isPrefix.eq_of_length_le (Nat.le_of_not_lt fun hlt => ?_)
    exact hnone _ (h.closes (by simpa using hlt))
  counter_pos i hi := by
    have hcounter := h.counter i i.zero_le (by omega)
    omega

end Finds

/-! ## The scan and the counts -/

section Scan

variable {rest : List UInt8} {m : Memory} {depth : Nat}

theorem opened_succ : opened bs (x + 1) = opened bs x + if Bare bs '{'.toUInt8 x then 1 else 0 :=
  Nat.count_succ _ _

theorem closed_succ : closed bs (x + 1) = closed bs x + if Bare bs '}'.toUInt8 x then 1 else 0 :=
  Nat.count_succ _ _

theorem Remembers.bare_iff {c : UInt8} (hm : Remembers bs x m) (hb : bs[x]? = some b) :
    Bare bs c x ↔ m.mark = none ∧ b = c := by
  rw [Bare, hb, Option.some.injEq, ← hm.isSome_mark_iff, Option.not_isSome_iff_eq_none, and_comm]

theorem Bare.not_bare {c : UInt8} (h : Bare bs b x) (hne : b ≠ c) : ¬ Bare bs c x :=
  fun h' => hne (Option.some.inj (h.1.symm.trans h'.1))

theorem getElem?_of_drop (h : bs.drop x = b :: rest) :
    bs[x]? = some b ∧ bs.drop (x + 1) = rest := by
  constructor
  · rw [← List.head?_drop, h, List.head?_cons]
  · rw [← List.tail_drop, h, List.tail_cons]

/-- **The scan finds the brace that closes.**  It may begin anywhere, if what it remembers is true
and its depth is the number of braces opened and not closed. -/
theorem finds_scanBytes (hdrop : bs.drop x = rest) (hm : Remembers bs x m)
    (hdepth : closed bs x + depth = opened bs x) : Finds bs x (scanBytes rest depth m) := by
  fun_induction scanBytes rest depth m generalizing x with
  | case1 depth m =>
    exact .nil (by omega) fun hlt => absurd (List.drop_eq_nil_iff.1 hdrop) (Nat.not_le.2 hlt)
  | case2 b bs' depth m hbrace ih =>
    obtain ⟨hb, hdrop⟩ := getElem?_of_drop hdrop
    have hopen : Bare bs '{'.toUInt8 x := (hm.bare_iff hb).2 hbrace
    have hclose : ¬ Bare bs '}'.toUInt8 x := hopen.not_bare (by decide)
    have hfinds := ih hdrop (hm.after hb) (by
      rw [closed_succ, opened_succ, if_neg hclose, if_pos hopen]; omega)
    exact hfinds.cons hb (fun hcloses => hclose hcloses.1) (by omega)
  | case3 b bs' m hopen hbrace =>
    obtain ⟨hb, -⟩ := getElem?_of_drop hdrop
    exact .nil (by omega) fun _ => ⟨(hm.bare_iff hb).2 hbrace, by omega⟩
  | case4 b bs' m hopen hbrace depth ih =>
    obtain ⟨hb, hdrop⟩ := getElem?_of_drop hdrop
    have hclose : Bare bs '}'.toUInt8 x := (hm.bare_iff hb).2 hbrace
    have hopen : ¬ Bare bs '{'.toUInt8 x := hclose.not_bare (by decide)
    have hfinds := ih hdrop (hm.after hb) (by
      rw [closed_succ, opened_succ, if_pos hclose, if_neg hopen]; omega)
    exact hfinds.cons hb (fun hcloses => by have := hcloses.2; omega) (by omega)
  | case5 b bs' depth m hopen hclose ih =>
    obtain ⟨hb, hdrop⟩ := getElem?_of_drop hdrop
    rw [← hm.bare_iff hb] at hopen hclose
    have hfinds := ih hdrop (hm.after hb) (by
      rw [closed_succ, opened_succ, if_neg hclose, if_neg hopen]; omega)
    exact hfinds.cons hb (fun hcloses => hclose hcloses.1) (by omega)

theorem isBody_scanBytes (bs : List UInt8) : IsBody bs (scanBytes bs 0 .start) :=
  (finds_scanBytes List.drop_zero (.start bs) rfl).isBody

end Scan

/-! ## The scan reads characters -/

section Characters

open Text

variable {c : Char} {u : List UInt8} {m : Memory}

theorem isMark_toUInt8 (hc : c.toNat < 128) : IsMark c.toUInt8 ↔ c = '\'' ∨ c = '"' := by
  rw [IsMark, toUInt8_inj hc (by decide), toUInt8_inj hc (by decide)]

/-- A byte beyond ASCII only takes away what a backslash before it was for. -/
theorem Memory.after_of_plain (hm : ∀ q ∈ m.mark, IsMark q) (hb : 128 ≤ b.toNat) :
    m.after b = ⟨m.mark, false⟩ := by
  have hne : ∀ c : UInt8, c.toNat < 128 → b ≠ c := by
    rintro c hc rfl
    omega
  obtain ⟨_ | q, escaped⟩ := m
  · have hmark : ¬ IsMark b := not_or.2 ⟨hne _ (by decide), hne _ (by decide)⟩
    rw [after_outside, if_neg hmark]
  · have hq : b ≠ q := by
      rcases hm q rfl with rfl | rfl <;> exact hne _ (by decide)
    have hslash : b ≠ '\\'.toUInt8 := hne _ (by decide)
    simp [hq, hslash]

/-- The bytes of a character beyond ASCII are read as if it were one. -/
theorem scanBytes_append_of_plain (hm : ∀ q ∈ m.mark, IsMark q) (hu : ∀ b ∈ u, 128 ≤ b.toNat)
    (hne : u ≠ []) (bs : List UInt8) (depth : Nat) :
    scanBytes (u ++ bs) depth m = u ++ scanBytes bs depth ⟨m.mark, false⟩ := by
  induction u generalizing m with
  | nil => exact absurd rfl hne
  | cons b u ih =>
    have hb : 128 ≤ b.toNat := hu b List.mem_cons_self
    have hopen : b ≠ '{'.toUInt8 := by rintro rfl; exact absurd hb (by decide)
    have hclose : b ≠ '}'.toUInt8 := by rintro rfl; exact absurd hb (by decide)
    have hstep : scanBytes (b :: (u ++ bs)) depth m =
        b :: scanBytes (u ++ bs) depth ⟨m.mark, false⟩ := by
      rw [scanBytes_of_not_brace (fun h => hopen h.2) (fun h => hclose h.2),
        Memory.after_of_plain hm hb]
    cases u with
    | nil => exact hstep
    | cons b' u =>
      have hrest := ih (m := ⟨m.mark, false⟩) hm (fun b hb => hu b (List.mem_cons_of_mem _ hb))
        (by simp)
      rw [List.cons_append, hstep, hrest]
      rfl

/-- **Reading characters finds what reading bytes finds.** -/
theorem bytes_bodyFrom {cs : List Char} {depth : Nat} {mark : Option Char} {escaped : Bool}
    (hmark : ∀ q ∈ mark, q = '\'' ∨ q = '"') :
    bytes (.ofList (bodyFrom cs depth mark escaped)) =
      scanBytes (bytes (.ofList cs)) depth ⟨mark.map Char.toUInt8, escaped⟩ := by
  -- Only a character that is neither a mark nor a brace can have more than one byte.
  fun_induction bodyFrom cs depth mark escaped with
  | case1 => rfl
  | case2 c cs depth q escaped hclose ih =>
    obtain ⟨rfl, hescaped⟩ := hclose
    have hc : c.toNat < 128 := by rcases hmark c rfl with rfl | rfl <;> decide
    rw [bytes_ofList_cons, ih (by simp), bytes_ofList_cons, utf8EncodeChar_of_ascii hc]
    simp [scanBytes, hescaped]
  | case3 c cs depth q escaped hclose ih =>
    have hq : q.toNat < 128 := by rcases hmark q rfl with rfl | rfl <;> decide
    have hqmark : IsMark q.toUInt8 := (isMark_toUInt8 hq).2 (hmark q rfl)
    rw [bytes_ofList_cons, ih hmark, bytes_ofList_cons]
    by_cases hc : c.toNat < 128
    · rw [utf8EncodeChar_of_ascii hc, List.singleton_append, List.singleton_append,
        scanBytes_of_not_brace (by simp) (by simp)]
      simp only [Option.map_some, Memory.after_inside, toUInt8_inj hc hq, if_neg hclose,
        toUInt8_inj hc (d := '\\') (by decide)]
    · have hslash : c ≠ '\\' := by rintro rfl; exact hc (by decide)
      rw [scanBytes_append_of_plain (by simpa using hqmark) (fun b => le_of_mem_utf8EncodeChar hc)
        String.utf8EncodeChar_ne_nil]
      simp [hslash]
  | case4 escaped c cs depth hquote ih =>
    rw [bytes_ofList_cons, ih (by simpa using hquote), bytes_ofList_cons]
    rcases hquote with rfl | rfl <;> rw [utf8EncodeChar_of_ascii (by decide)] <;> rfl
  | case5 cs depth escaped hquote ih =>
    rw [bytes_ofList_cons, ih (by simp), bytes_ofList_cons, utf8EncodeChar_of_ascii (by decide)]
    rfl
  | case6 cs escaped hquote hbrace =>
    rw [bytes_ofList_cons, utf8EncodeChar_of_ascii (by decide)]
    rfl
  | case7 cs escaped depth hquote hbrace ih =>
    rw [bytes_ofList_cons, ih (by simp), bytes_ofList_cons, utf8EncodeChar_of_ascii (by decide)]
    rfl
  | case8 escaped c cs depth hquote hopen hclose ih =>
    rw [bytes_ofList_cons, ih (by simp), bytes_ofList_cons]
    by_cases hc : c.toNat < 128
    · have hmark : ¬ IsMark c.toUInt8 := (isMark_toUInt8 hc).not.2 hquote
      have hopen : c.toUInt8 ≠ '{'.toUInt8 := (toUInt8_inj hc (by decide)).not.2 hopen
      have hclose : c.toUInt8 ≠ '}'.toUInt8 := (toUInt8_inj hc (by decide)).not.2 hclose
      rw [utf8EncodeChar_of_ascii hc, List.singleton_append, List.singleton_append,
        scanBytes_of_not_brace (fun h => hopen h.2) (fun h => hclose h.2), Option.map_none,
        Memory.after_outside, if_neg hmark]
    · rw [scanBytes_append_of_plain (by simp) (fun b => le_of_mem_utf8EncodeChar hc)
        String.utf8EncodeChar_ne_nil]

/-! ## The body at an offset -/

/-- `found` is the body at byte `start` of a text. -/
structure IsBodyAt (text : String) (start : Nat) (found : String) : Prop where
  /-- Nothing is found inside of a character or past the end. -/
  outside : ¬ (⟨start⟩ : String.Pos.Raw).IsValid text → found = ""
  /-- Elsewhere the body of what is left of the text is found. -/
  inside : (⟨start⟩ : String.Pos.Raw).IsValid text → IsBody ((bytes text).drop start) (bytes found)

/-- **Bodies are balanced.**  What is found at an offset reaches to the first closing brace outside
of quotation marks before which as many braces were opened as closed, or to the end. -/
theorem isBodyAt_bodyAt (text : String) (start : Nat) :
    IsBodyAt text start (bodyAt text start) := by
  cases hdrop : dropBytes? start text.toList with
  | none =>
    have houtside := dropBytes?_eq_none_iff.1 hdrop
    exact ⟨fun _ => by rw [bodyAt, hdrop]; rfl, fun hvalid => absurd hvalid houtside⟩
  | some rest =>
    have hvalid : (⟨start⟩ : String.Pos.Raw).IsValid text := by
      by_contra houtside
      rw [dropBytes?_eq_none_iff.2 houtside] at hdrop
      cases hdrop
    have hfound : bytes (bodyAt text start) = scanBytes ((bytes text).drop start) 0 .start := by
      rw [bodyAt, hdrop, Option.getD_some, body, bytes_bodyFrom (by simp),
        bytes_drop_of_dropBytes? hdrop]
      rfl
    exact ⟨fun houtside => absurd hvalid houtside, fun _ => hfound ▸ isBody_scanBytes _⟩

/-- An escaped mark does not end a stretch, and the brace after it does not count. -/
example : (List.range 7).filter (Closes (bytes "'\\'\x7d'\x7d\\")) = [5] := by decide +kernel

end Characters

end ScriptReader.Rich
