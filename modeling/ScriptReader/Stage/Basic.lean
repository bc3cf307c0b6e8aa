import ScriptReader.Stream.Cursor

/-!
# Stages

A stage edits a stream of tokens as it goes by.  It sees one token at a time, together with the
recent past, and may ask for the kind of the token that comes next before it decides.

## Main Definitions

* `Ruling` — what a stage makes of a token
* `Stage` — a machine that edits streams
* `Stage.feed` — the stream that a stage makes of a stream
* `Stage.apply` — the tokens that a stage makes of a list of tokens

## Main Statements

* `Stage.tokens_feed` — the tokens of the stream that a stage makes are those that it makes of the
  tokens of the stream

## Design Notes

Whether a stage asks for the next token is part of what it does, since asking takes that token from
the stream.  A ruling that waits for the answer is a function of it: a stage cannot see the future
without being charged for it.

A stage may withhold tokens.  When the stream ends it is asked once more, and what it still
withholds is then due.
-/

namespace ScriptReader

/-- What a stage makes of a token: its state afterwards and the tokens that it lets out. -/
inductive Ruling (σ : Type) where
  /-- Decided at once. -/
  | settled (state : σ) (out : List Token)
  /-- Decided once the kind of the next token is known, which is `none` at the end. -/
  | pending (resume : Option TokenKind → σ × List Token)

namespace Ruling

variable {σ : Type}

/-- The decision, given the kind of the next token. -/
def given (r : Ruling σ) (next : Option TokenKind) : σ × List Token :=
  match r with
  | settled state out => (state, out)
  | pending resume => resume next

/-- The decision at a place in a feed, and the place afterwards: looked ahead from if need be. -/
def resolve (r : Ruling σ) (c : Cursor) : (σ × List Token) × Cursor :=
  match r with
  | settled state out => ((state, out), c)
  | pending resume =>
    let looked := c.lookAhead 0
    (resume looked.1, looked.2)

theorem resolve_fst (r : Ruling σ) (c : Cursor) :
    (r.resolve c).1 = r.given (c.remaining.head?.map Token.kind) := by
  cases r with
  | settled => rfl
  | pending resume => simp [resolve, given, c.lookAhead_fst 0, List.head?_eq_getElem?]

@[simp] theorem remaining_resolve (r : Ruling σ) (c : Cursor) :
    (r.resolve c).2.remaining = c.remaining := by
  cases r with
  | settled => rfl
  | pending resume => exact c.remaining_lookAhead 0

@[simp] theorem history_resolve (r : Ruling σ) (c : Cursor) :
    (r.resolve c).2.history = c.history := by
  cases r with
  | settled => rfl
  | pending resume => exact c.history_lookAhead 0

end Ruling

/-- A machine that edits streams of tokens. -/
structure Stage where
  /-- What the stage is called. -/
  name : String
  /-- What the stage remembers from token to token. -/
  State : Type
  /-- What it remembers at the start of a stream. -/
  start : State
  /-- What it makes of a token, which is also the newest one of the history. -/
  step : State → Token → History → Ruling State
  /-- What it still lets out at the end of the stream. -/
  atEnd : State → History → List Token

namespace Stage

/-- The stream that a stage makes of the rest of a stream. -/
def feedFrom (S : Stage) (s : S.State) (c : Cursor) : Feed :=
  match _h : c.next with
  | (none, c') => (⟨[], c'.asked⟩ : Feed).prepend c'.asked (S.atEnd s c'.history)
  | (some t, c') =>
    let r := (S.step s t c'.history).resolve c'
    (S.feedFrom r.1.1 r.2).prepend r.2.asked r.1.2
  termination_by c.remaining.length
  decreasing_by
    have hhead := c.next_fst
    have htail := c.remaining_next
    simp only [_h] at hhead htail
    simp only [Ruling.remaining_resolve, htail]
    cases hc : c.remaining with
    | nil => simp [hc] at hhead
    | cons _ _ => simp

/-- The stream that a stage makes of a stream. -/
def feed (S : Stage) (f : Feed) : Feed := S.feedFrom S.start (.ofFeed f)

/-- The tokens that a stage makes of the rest of a list of tokens. -/
def applyFrom (S : Stage) (s : S.State) (h : History) : List Token → List Token
  | [] => S.atEnd s h
  | t :: ts =>
    let r := (S.step s t (h.push t)).given (ts.head?.map Token.kind)
    r.2 ++ S.applyFrom r.1 (h.push t) ts

/-- The tokens that a stage makes of a list of tokens. -/
def apply (S : Stage) (ts : List Token) : List Token := S.applyFrom S.start .empty ts

/-! ### A stream of tokens is edited as its tokens are -/

theorem tokens_feedFrom (S : Stage) (s : S.State) (c : Cursor) :
    (S.feedFrom s c).tokens = S.applyFrom s c.history c.remaining := by
  fun_induction feedFrom S s c with
  | case1 s c c' hnext =>
    have hhead := c.next_fst
    have hpast := c.history_next
    simp only [hnext] at hhead hpast
    have hnil : c.remaining = [] := List.head?_eq_none_iff.1 hhead.symm
    simp only [Feed.tokens_prepend, hnil, applyFrom, hpast]
    simp [Feed.tokens]
  | case2 s c t c' hnext r ih =>
    have hhead := c.next_fst
    have htail := c.remaining_next
    have hpast := c.history_next
    simp only [hnext] at hhead htail hpast
    obtain ⟨ts, hc⟩ : ∃ ts, c.remaining = t :: ts := by
      cases hc : c.remaining with
      | nil => simp [hc] at hhead
      | cons u us => simp [hc] at hhead; simp [hhead]
    simp only [hc, List.tail_cons, List.head?_cons, Option.map_some, Option.getD_some]
      at htail hpast
    have hr : r.1 = (S.step s t c'.history).given (ts.head?.map Token.kind) := by
      rw [← htail]; exact Ruling.resolve_fst _ _
    simp only [Feed.tokens_prepend, ih, hc, applyFrom]
    rw [← hpast, ← hr]
    simp [r, htail]

/-- Streams and lists of tokens are edited alike. -/
theorem tokens_feed (S : Stage) (f : Feed) : (S.feed f).tokens = S.apply f.tokens :=
  S.tokens_feedFrom S.start (.ofFeed f)

/-! ### Stages that look at one token at a time -/

/-- If what is made of a token depends on nothing but the token, a list is edited token by token. -/
theorem apply_eq_flatMap {S : Stage} {f : Token → List Token}
    (hstep : ∀ s t h next, ((S.step s t h).given next).2 = f t) (hend : ∀ s h, S.atEnd s h = [])
    (ts : List Token) : S.apply ts = ts.flatMap f := by
  have run : ∀ (ts : List Token) (s : S.State) (h : History),
      S.applyFrom s h ts = ts.flatMap f := by
    intro ts
    induction ts with
    | nil => exact hend
    | cons t ts ih =>
      intro s h
      rw [applyFrom, List.flatMap_cons, hstep, ih]
  exact run ts S.start .empty

end Stage

end ScriptReader
