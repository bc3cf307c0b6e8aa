import ScriptReader.Proofs.Text.Pieces
import ScriptReader.Token.Basic

/-!
# Tokens laid out along a source

A list of tokens is read against the bytes of a source: the spans follow one another, and a byte
that none of them covers is one that no token is needed for.

## Main Definitions

* `Token.IsPieceOf` — a token stands for the text in its span
* `Token.Covers` — a byte lies in the span of a token
* `Skips` — no token is needed between two offsets
* `Tiles` — a list of tokens accounts for the bytes between two offsets

## Main Statements

* `Tiles.append_iff` — a list accounts for a stretch just if its parts account for parts of it
* `Tiles.flatMap` — tokens may be replaced by tokens that account for their spans
* `Tiles.countP_covers_le_one`, `Tiles.countP_covers_eq_one` — no byte is covered twice, and a byte
  that needs a token is covered once

## Design Notes

Which bytes need no token, and what is required of the tokens besides their places, are parameters.
Tokens without text may stand anywhere between others; they cover nothing.
-/

namespace ScriptReader

/-- The token stands for what the source holds in its span. -/
def Token.IsPieceOf (source : List Char) (t : Token) : Prop :=
  Text.IsPiece source t.span.start.toNat t.span.stop.toNat t.text.toList

/-- Byte `x` of the source lies in the span of the token. -/
def Token.Covers (t : Token) (x : Nat) : Prop := t.span.start.toNat ≤ x ∧ x < t.span.stop.toNat

instance (t : Token) (x : Nat) : Decidable (t.Covers x) :=
  inferInstanceAs (Decidable (_ ∧ _))

/-! ## Stretches without tokens -/

/-- No byte from `a` up to `b` needs a token. -/
structure Skips (spare : Nat → Prop) (a b : Nat) : Prop where
  /-- The stretch does not run backwards. -/
  le : a ≤ b
  /-- Each of its bytes can be spared. -/
  spared : ∀ x, a ≤ x → x < b → spare x

namespace Skips

variable {spare spare' : Nat → Prop} {a b c : Nat}

theorem refl (a : Nat) : Skips spare a a :=
  ⟨Nat.le_refl a, fun _ hle hlt => absurd hlt (Nat.not_lt.2 hle)⟩

theorem trans (hab : Skips spare a b) (hbc : Skips spare b c) : Skips spare a c := by
  refine ⟨Nat.le_trans hab.le hbc.le, ?_⟩
  intro x hle hlt
  by_cases hx : x < b
  · exact hab.spared x hle hx
  · exact hbc.spared x (Nat.not_lt.1 hx) hlt

theorem mono (hab : Skips spare a b) (h : ∀ x, spare x → spare' x) : Skips spare' a b :=
  ⟨hab.le, fun x hle hlt => h x (hab.spared x hle hlt)⟩

/-- The same stretch in a text that begins `d` bytes earlier. -/
theorem shift (hab : Skips spare a b) (d : Nat) (h : ∀ x, spare x → spare' (d + x)) :
    Skips spare' (d + a) (d + b) := by
  refine ⟨Nat.add_le_add_left hab.le d, ?_⟩
  intro x hle hlt
  obtain ⟨y, rfl⟩ := Nat.exists_eq_add_of_le (Nat.le_trans (Nat.le_add_right d a) hle)
  exact h y (hab.spared y (by omega) (by omega))

end Skips

/-! ## Tilings -/

/-- The tokens account for the bytes from `a` up to `b`: their spans follow one another, bytes
between them are spared, and each of them is `good`. -/
inductive Tiles (spare : Nat → Prop) (good : Token → Prop) : Nat → Nat → List Token → Prop
  /-- All that is left can be spared. -/
  | nil {a b : Nat} (skip : Skips spare a b) : Tiles spare good a b []
  /-- All before the next token can be spared, and the others account for what is after it. -/
  | cons {a b : Nat} {t : Token} {ts : List Token} (skip : Skips spare a t.span.start.toNat)
      (ordered : t.span.start.toNat ≤ t.span.stop.toNat) (holds : good t)
      (rest : Tiles spare good t.span.stop.toNat b ts) : Tiles spare good a b (t :: ts)

namespace Tiles

variable {spare spare' : Nat → Prop} {good good' : Token → Prop} {a b c x : Nat} {t : Token}
  {ts us : List Token}

theorem le (h : Tiles spare good a b ts) : a ≤ b := by
  induction h with
  | nil skip => exact skip.le
  | cons skip ordered holds rest ih => exact Nat.le_trans skip.le (Nat.le_trans ordered ih)

theorem good_of_mem (h : Tiles spare good a b ts) : ∀ t ∈ ts, good t := by
  induction h with
  | nil skip => simp
  | cons skip ordered holds rest ih => exact List.forall_mem_cons.2 ⟨holds, ih⟩

/-- What is spared before a tiling makes it longer. -/
theorem skip_left (hskip : Skips spare a c) (h : Tiles spare good c b ts) :
    Tiles spare good a b ts := by
  cases h with
  | nil skip => exact .nil (hskip.trans skip)
  | cons skip ordered holds rest => exact .cons (hskip.trans skip) ordered holds rest

theorem append_iff :
    Tiles spare good a b (ts ++ us) ↔ ∃ c, Tiles spare good a c ts ∧ Tiles spare good c b us := by
  constructor
  · intro h
    induction ts generalizing a with
    | nil => exact ⟨a, .nil (.refl a), h⟩
    | cons t ts ih =>
      cases h with
      | cons skip ordered holds rest =>
        obtain ⟨c, hts, hus⟩ := ih rest
        exact ⟨c, .cons skip ordered holds hts, hus⟩
  · rintro ⟨c, hts, hus⟩
    induction hts with
    | nil skip => exact skip_left skip hus
    | cons skip ordered holds rest ih => exact .cons skip ordered holds (ih hus)

theorem append (hts : Tiles spare good a c ts) (hus : Tiles spare good c b us) :
    Tiles spare good a b (ts ++ us) :=
  append_iff.2 ⟨c, hts, hus⟩

/-- A token accounts for its own span. -/
theorem single (ordered : t.span.start.toNat ≤ t.span.stop.toNat) (holds : good t) :
    Tiles spare good t.span.start.toNat t.span.stop.toNat [t] :=
  .cons (.refl _) ordered holds (.nil (.refl _))

/-- Tokens without extent account for the place at which they stand. -/
theorem marks {o : Offset} (hus : ∀ u ∈ us, u.span = .point o ∧ good u) :
    Tiles spare good o.toNat o.toNat us := by
  induction us with
  | nil => exact .nil (.refl _)
  | cons u us ih =>
    obtain ⟨⟨hspan, hu⟩, hrest⟩ := List.forall_mem_cons.1 hus
    have hstart : u.span.start = o := by rw [hspan]; rfl
    have hstop : u.span.stop = o := by rw [hspan]; rfl
    refine .cons (hstart ▸ .refl _) (Nat.le_of_eq (by rw [hstart, hstop])) hu ?_
    rw [hstop]
    exact ih hrest

/-- Less may be asked of the tokens, and more bytes be spared. -/
theorem weaken (h : Tiles spare good a b ts) (hspare : ∀ x, spare x → spare' x)
    (hgood : ∀ t ∈ ts, good t → good' t) : Tiles spare' good' a b ts := by
  induction h with
  | nil skip => exact .nil (skip.mono hspare)
  | cons skip ordered holds rest ih =>
    obtain ⟨hhead, htail⟩ := List.forall_mem_cons.1 hgood
    exact .cons (skip.mono hspare) ordered (hhead holds) (ih htail)

/-- Each token may be replaced by tokens that account for its span. -/
theorem flatMap {f : Token → List Token} (h : Tiles spare good a b ts)
    (hf : ∀ t ∈ ts, good t → Tiles spare good' t.span.start.toNat t.span.stop.toNat (f t)) :
    Tiles spare good' a b (ts.flatMap f) := by
  induction h with
  | nil skip => exact .nil skip
  | cons skip ordered holds rest ih =>
    obtain ⟨hhead, htail⟩ := List.forall_mem_cons.1 hf
    exact skip_left skip ((hhead holds).append (ih htail))

/-! ### Tilings of a fragment -/

/-- The tokens of a fragment account for its bytes also where it stands in a longer text. -/
theorem shifted (h : Tiles spare good a b ts) (d : Offset) (hb : d.toNat + b ≤ Offset.top)
    (hspare : ∀ x, spare x → spare' (d.toNat + x))
    (hgood : ∀ t ∈ ts, good t → (t.shifted d).span.start.toNat = d.toNat + t.span.start.toNat →
      (t.shifted d).span.stop.toNat = d.toNat + t.span.stop.toNat → good' (t.shifted d)) :
    Tiles spare' good' (d.toNat + a) (d.toNat + b) (ts.map (·.shifted d)) := by
  induction h with
  | nil skip => exact .nil (skip.shift d.toNat hspare)
  | @cons a b t ts skip ordered holds rest ih =>
    obtain ⟨hhead, htail⟩ := List.forall_mem_cons.1 hgood
    have hle := rest.le
    have hstart := t.span.toNat_start_offsetBy d (by omega)
    have hstop := t.span.toNat_stop_offsetBy d (by omega)
    have hskip := skip.shift d.toNat hspare
    have hordered := Nat.add_le_add_left ordered d.toNat
    have hrest := ih hb htail
    rw [← hstart] at hskip hordered
    rw [← hstop] at hordered hrest
    exact .cons hskip hordered (hhead holds hstart hstop) hrest

/-! ### What a tiling covers -/

theorem le_start_of_mem (h : Tiles spare good a b ts) : ∀ t ∈ ts, a ≤ t.span.start.toNat := by
  induction h with
  | nil skip => simp
  | cons skip ordered holds rest ih =>
    rw [List.forall_mem_cons]
    refine ⟨skip.le, ?_⟩
    intro u hu
    exact Nat.le_trans skip.le (Nat.le_trans ordered (ih u hu))

theorem countP_covers_of_lt (h : Tiles spare good a b ts) (hx : x < a) :
    ts.countP (·.Covers x) = 0 := by
  rw [List.countP_eq_zero]
  intro t ht
  have hstart := h.le_start_of_mem t ht
  simp only [decide_eq_true_eq]
  exact fun hcovers => absurd hcovers.1 (by omega)

theorem countP_covers_le_one (h : Tiles spare good a b ts) (x : Nat) :
    ts.countP (·.Covers x) ≤ 1 := by
  induction h with
  | nil skip => simp
  | @cons a b t ts skip ordered holds rest ih =>
    by_cases hcovers : t.Covers x
    · have hone : (t :: ts).countP (·.Covers x) = 0 + 1 := by
        rw [List.countP_cons_of_pos (by simpa using hcovers), rest.countP_covers_of_lt hcovers.2]
      exact Nat.le_of_eq hone
    · rw [List.countP_cons_of_neg (by simpa using hcovers)]
      exact ih

theorem countP_covers_eq_one (h : Tiles spare good a b ts) (hle : a ≤ x) (hlt : x < b)
    (hx : ¬ spare x) : ts.countP (·.Covers x) = 1 := by
  induction h with
  | nil skip => exact absurd (skip.spared x hle hlt) hx
  | @cons a b t ts skip ordered holds rest ih =>
    -- The byte lies at or after the next token, since all bytes before it can be spared.
    have hstart : t.span.start.toNat ≤ x :=
      Nat.not_lt.1 fun hbefore => hx (skip.spared x hle hbefore)
    by_cases hstop : x < t.span.stop.toNat
    · rw [List.countP_cons_of_pos (by simpa using ⟨hstart, hstop⟩),
        rest.countP_covers_of_lt hstop]
    · rw [List.countP_cons_of_neg (by simpa using fun hcovers : t.Covers x => hstop hcovers.2)]
      exact ih (Nat.not_lt.1 hstop) hlt

/-- Every token ends before those after it begin. -/
theorem pairwise (h : Tiles spare good a b ts) :
    ts.Pairwise fun t u => t.span.stop ≤ u.span.start := by
  induction h with
  | nil skip => exact .nil
  | cons skip ordered holds rest ih =>
    refine .cons ?_ ih
    intro u hu
    rw [UInt32.le_iff_toNat_le]
    exact rest.le_start_of_mem u hu

end Tiles

end ScriptReader
