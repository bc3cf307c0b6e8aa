import Mathlib.Data.List.Chain
import ScriptReader.Token.Kind

/-!
# Which kinds stand beside each other

Newlines and the marks of the pipeline are particular about their neighbours.  What they demand is
told by the kinds of tokens alone, and of one neighbour at a time.

## Main Definitions

* `Beside` — neighbours in a list of kinds, its edges included, are related
* `Demands` — what newlines and marks demand of their neighbours
* `Demands.Allow` — two neighbours meet each other's demands

## Main Statements

* `Beside.of_split` — the neighbours of a kind are related to it
* `Beside.append` — lists that may stand on their own may stand one after another
* `Demands.after_mono` — few kinds demand anything of what follows them

## Design Notes

An edge of a list is the neighbour `none`, so that a demand can exclude that nothing is there, and
lists of kinds that are put together are compared at their edges.
-/

namespace ScriptReader

variable {R R' : Option TokenKind → Option TokenKind → Prop} {o a b : Option TokenKind}
  {k : TokenKind} {ks ls : List TokenKind}

/-! ## Neighbours in a list -/

/-- Neighbours in the list are related, `o` being the neighbour before the list and nothing after
it. -/
def Beside (R : Option TokenKind → Option TokenKind → Prop) (o : Option TokenKind)
    (ks : List TokenKind) : Prop :=
  (o :: (ks.map some ++ [none])).IsChain R

@[simp] theorem beside_nil : Beside R o [] ↔ R o none := List.isChain_pair

@[simp] theorem beside_cons :
    Beside R o (k :: ks) ↔ R o (some k) ∧ Beside R (some k) ks := List.isChain_cons_cons

namespace Beside

/-- The first of them is related to what is before the list. -/
theorem head (h : Beside R o ks) : R o ks.head? := by
  cases ks with
  | nil => exact beside_nil.1 h
  | cons k ks => exact (beside_cons.1 h).1

/-- Of any list it can be said what is said of each kind in it. -/
theorem of_forall {p : TokenKind → Prop} (h : ∀ k ∈ ks, p k) :
    Beside (fun _ b => ∀ k, b = some k → p k) o ks := by
  induction ks generalizing o with
  | nil => simp
  | cons k ks ih =>
    obtain ⟨hk, hks⟩ := List.forall_mem_cons.1 h
    exact beside_cons.2 ⟨fun l hl => Option.some.inj hl ▸ hk, ih hks⟩

/-- What is before the list may be something else that is related to the first of them. -/
theorem of_head (h : Beside R o ks) (hhead : R a ks.head?) : Beside R a ks := by
  cases ks with
  | nil => exact beside_nil.2 hhead
  | cons k ks => exact beside_cons.2 ⟨hhead, (beside_cons.1 h).2⟩

/-- The list may go on, if what follows suits the last of them. -/
theorem append_of_last (h : Beside R o ks)
    (hrest : R (ks.getLast?.or o) none → Beside R (ks.getLast?.or o) ls) :
    Beside R o (ks ++ ls) := by
  induction ks generalizing o with
  | nil => exact hrest (beside_nil.1 h)
  | cons k ks ih =>
    obtain ⟨hhead, htail⟩ := beside_cons.1 h
    rw [List.getLast?_cons, Option.some_or, ← Option.or_some] at hrest
    exact beside_cons.2 ⟨hhead, ih htail hrest⟩

/-- Lists that may stand on their own may stand one after another, if what may come last and what
may come first are related. -/
theorem append (hglue : ∀ a b, R a none → R none b → R a b) (h : Beside R o ks)
    (h' : Beside R none ls) : Beside R o (ks ++ ls) :=
  h.append_of_last fun hlast => h'.of_head (hglue _ _ hlast h'.head)

/-- The neighbours of a kind, or the edges of the list, are related to it. -/
theorem of_split {before after : List TokenKind} (h : Beside R o (before ++ k :: after)) :
    R (before.getLast?.or o) (some k) ∧ R (some k) after.head? := by
  induction before generalizing o with
  | nil =>
    obtain ⟨hbefore, hrest⟩ := beside_cons.1 h
    exact ⟨hbefore, hrest.head⟩
  | cons l before ih =>
    have hrest := ih (beside_cons.1 h).2
    rwa [List.getLast?_cons, Option.some_or, ← Option.or_some]

end Beside

/-! ## What kinds demand of their neighbours -/

/-- One of the given kinds is there. -/
def isAmong (kinds : List TokenKind) (o : Option TokenKind) : Bool := o.any kinds.contains

/-- Something else than the given kinds is there. -/
def isOther (kinds : List TokenKind) (o : Option TokenKind) : Bool :=
  o.any fun k => !kinds.contains k

@[simp] theorem isAmong_nil : isAmong [] o = false := by
  cases o <;> rfl

@[simp] theorem isAmong_none {kinds : List TokenKind} : isAmong kinds none = false := rfl

@[simp] theorem isAmong_some {kinds : List TokenKind} :
    isAmong kinds (some k) = kinds.contains k := rfl

@[simp] theorem isOther_none {kinds : List TokenKind} : isOther kinds none = false := rfl

@[simp] theorem isOther_some {kinds : List TokenKind} :
    isOther kinds (some k) = !kinds.contains k := rfl

theorem eq_of_isAmong (h : isAmong [k] o) : o = some k := by
  cases o with
  | none => simp at h
  | some l => simpa using h

theorem isOther_of_subset {kinds kinds' : List TokenKind} (hsubset : kinds' ⊆ kinds)
    (h : isOther kinds o) : isOther kinds' o := by
  cases o with
  | none => simp at h
  | some k =>
    have hk : k ∉ kinds := by simpa using h
    simpa using fun hmem => hk (hsubset hmem)

theorem isOther_append {kinds kinds' : List TokenKind} (h : isOther kinds o)
    (h' : isOther kinds' o) : isOther (kinds ++ kinds') o := by
  cases o with
  | none => simp at h
  | some k => simp_all

/-- What newlines and marks demand of their neighbours. -/
structure Demands where
  /-- What a newline demands of what follows it. -/
  afterNewline : Option TokenKind → Bool
  /-- What the start of a block demands of what follows it. -/
  afterIndent : Option TokenKind → Bool
  /-- What the mark of a list of parameters demands of what follows it. -/
  afterFunctionMark : Option TokenKind → Bool
  /-- What the mark of a pattern demands of what follows it. -/
  afterPatternMark : Option TokenKind → Bool
  /-- What the mark for a receiver demands of what follows it. -/
  afterReceiverMark : Option TokenKind → Bool
  /-- What a newline demands of what comes before it. -/
  beforeNewline : Option TokenKind → Bool

namespace Demands

variable {d : Demands}

/-- What `o` demands of what follows it. -/
def after (d : Demands) : Option TokenKind → Option TokenKind → Bool
  | some .newline => d.afterNewline
  | some .indent => d.afterIndent
  | some .functionMark => d.afterFunctionMark
  | some .patternMark => d.afterPatternMark
  | some .receiverMark => d.afterReceiverMark
  | _ => fun _ => true

/-- What `o` demands of what comes before it. -/
def before (d : Demands) : Option TokenKind → Option TokenKind → Bool
  | some .newline => d.beforeNewline
  | _ => fun _ => true

/-- `b` may follow `a`. -/
structure Allow (d : Demands) (a b : Option TokenKind) : Prop where
  /-- That is what `a` demands. -/
  after : d.after a b
  /-- That is what `b` demands. -/
  before : d.before b a

/-- The kinds that demand anything of what follows them. -/
def demanding : List TokenKind :=
  [.newline, .indent, .functionMark, .patternMark, .receiverMark]

/-- What is none of those kinds demands nothing of what follows it. -/
def IsFree (o : Option TokenKind) : Prop := ∀ k ∈ demanding, o ≠ some k

@[simp] theorem after_newline : d.after (some .newline) = d.afterNewline := rfl
@[simp] theorem after_indent : d.after (some .indent) = d.afterIndent := rfl
@[simp] theorem after_functionMark : d.after (some .functionMark) = d.afterFunctionMark := rfl
@[simp] theorem after_patternMark : d.after (some .patternMark) = d.afterPatternMark := rfl
@[simp] theorem after_receiverMark : d.after (some .receiverMark) = d.afterReceiverMark := rfl

theorem isFree_none : IsFree none := fun _ _ => by simp

theorem isFree_some (h : k ∉ demanding) : IsFree (some k) := by
  rintro l hl heq
  exact h (Option.some.inj heq ▸ hl)

theorem IsFree.after_eq (h : IsFree a) : d.after a b = true := by
  unfold after
  split <;> first | rfl | exact absurd rfl (h _ (by simp [demanding]))

/-- What follows something that would demand otherwise, if it demanded anything. -/
theorem isFree_of_after (h : d.after a b)
    (hb : ∀ k ∈ demanding, d.after (some k) b = false) : IsFree a := by
  rintro k hk rfl
  rw [hb k hk] at h
  simp at h

/-- What may stand where it suits each kind that demands anything may stand anywhere. -/
theorem after_mono {d' : Demands} {b' : Option TokenKind} (h : d.after a b)
    (hb : ∀ k ∈ demanding, d.after (some k) b → d'.after (some k) b') : d'.after a b' := by
  by_cases hfree : IsFree a
  · exact hfree.after_eq
  · simp only [IsFree, not_forall, not_not] at hfree
    obtain ⟨k, hk, rfl⟩ := hfree
    exact hb k hk h

theorem before_of_ne (h : b ≠ some .newline) : d.before b a = true := by
  unfold before
  split
  case h_1 => exact absurd rfl h
  case h_2 => rfl

theorem before_eq (h : ∀ o, d.beforeNewline o = true) : d.before b a = true := by
  unfold before
  split
  case h_1 => exact h a
  case h_2 => rfl

theorem IsFree.allow (h : IsFree a) (hb : b ≠ some .newline) : d.Allow a b :=
  ⟨h.after_eq, before_of_ne hb⟩

/-- Less may be demanded. -/
theorem Allow.mono {d' : Demands} (h : d.Allow a b)
    (hafter : ∀ k ∈ demanding, d.after (some k) b → d'.after (some k) b)
    (hbefore : d.beforeNewline a → d'.beforeNewline a) : d'.Allow a b where
  after := after_mono h.after hafter
  before := by
    by_cases hb : b = some .newline
    · subst hb
      exact hbefore h.before
    · exact before_of_ne hb

end Demands

end ScriptReader
