import ScriptReader.Token.Basic

/-!
# Feeds

A feed is a finite stream of tokens together with what each of them costs: how many requests have
reached the source of the stream by the time the token is handed over.

## Main Definitions

* `Feed` — tokens with their costs, and the cost of learning that there are no more
* `Feed.ofList` — the feed of a source that holds its tokens ready
* `Feed.drawn` — how many tokens of the source have been taken from it, request by request

## Design Notes

A reader who stops early makes nothing happen beyond the tokens it took.  The costs make that
visible without any machinery of suspended computation: taking the first few tokens of a feed costs
what is written at the last of them.

The source of a list of `n` tokens answers its first `n` requests with a token.  Any further request
counts as number `n + 1`, so that a cost of at most `n` says that the end has not been asked for.
-/

namespace ScriptReader

/-- A token on its way through a stream. -/
structure Arrival where
  /-- The token. -/
  token : Token
  /-- Requests that have reached the source when the token arrives. -/
  asked : Nat
  deriving DecidableEq, Repr

/-- A finite stream of tokens. -/
structure Feed where
  /-- The tokens, in order. -/
  arrivals : List Arrival
  /-- Requests that have reached the source when the stream reports its end. -/
  close : Nat
  deriving DecidableEq, Repr

namespace Feed

/-- The tokens of a feed. -/
def tokens (f : Feed) : List Token := f.arrivals.map Arrival.token

/-- The tokens `ts` of which the first answers request number `n + 1`. -/
def countingFrom (n : Nat) : List Token → Feed
  | [] => ⟨[], n + 1⟩
  | t :: ts =>
    let rest := countingFrom (n + 1) ts
    ⟨⟨t, n + 1⟩ :: rest.arrivals, rest.close⟩

/-- The feed of a source that holds the tokens `ts` ready. -/
def ofList (ts : List Token) : Feed := countingFrom 0 ts

/-- The tokens `ts`, all of which arrive at the same cost, and then those of `f`. -/
def prepend (asked : Nat) (ts : List Token) (f : Feed) : Feed :=
  { f with arrivals := ts.map (⟨·, asked⟩) ++ f.arrivals }

@[simp] theorem tokens_prepend (asked : Nat) (ts : List Token) (f : Feed) :
    (f.prepend asked ts).tokens = ts ++ f.tokens := by
  simp [tokens, prepend, Function.comp_def]

@[simp] theorem tokens_countingFrom (n : Nat) (ts : List Token) :
    (countingFrom n ts).tokens = ts := by
  induction ts generalizing n with
  | nil => rfl
  | cons t ts ih => simpa [countingFrom, tokens] using ih (n + 1)

@[simp] theorem tokens_ofList (ts : List Token) : (ofList ts).tokens = ts :=
  tokens_countingFrom 0 ts

/-- The first `count` tokens of a feed, or all of them. -/
def taken (f : Feed) : Option Nat → List Arrival
  | some count => f.arrivals.take count
  | none => f.arrivals

/-- What a reader of a feed sees of its source, which holds `size` tokens: how many of them have
been drawn after each token that the reader takes, and once more when it stops.  A reader that is
given a `count` stops as soon as it has taken that many. -/
def drawn (f : Feed) (size : Nat) (count : Option Nat) : List Nat :=
  let costs := (f.taken count).map Arrival.asked
  let last := if count.any (· ≤ f.arrivals.length) then costs.getLast?.getD 0 else f.close
  (costs ++ [last]).map (min size)

end Feed

end ScriptReader
