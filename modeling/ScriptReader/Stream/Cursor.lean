import ScriptReader.Stream.Feed
import ScriptReader.Stream.History

/-!
# Cursors

A cursor reads a feed one token at a time.  It can look at tokens that it has not read yet, and back
at those that it read last.

## Main Definitions

* `Cursor` — a place in a feed
* `Cursor.next` — read a token
* `Cursor.lookAhead` — the kind of a token further on
* `Cursor.remaining` — the tokens not read yet
* `Cursor.drawn` — how many tokens have been taken from the source of the feed

## Design Notes

Looking ahead takes tokens from the feed, and takes no more than it needs; what it took is kept and
read later.  A cursor knows the cost of the last thing it asked of its feed, so that a reader of the
cursor can be charged for it.
-/

namespace ScriptReader

/-- A place in a feed. -/
structure Cursor where
  /-- The tokens read so far. -/
  history : History := .empty
  /-- Tokens that have been looked at but not read. -/
  ahead : List Token := []
  /-- What has not been taken from the feed. -/
  supply : Feed
  /-- Requests that have reached the source of the feed. -/
  asked : Nat := 0

namespace Cursor

/-- The cursor at the start of a feed. -/
def ofFeed (f : Feed) : Cursor := { supply := f }

/-- The tokens that have not been read. -/
def remaining (c : Cursor) : List Token := c.ahead ++ c.supply.tokens

/-- Reads a token. -/
def next (c : Cursor) : Option Token × Cursor :=
  match c.ahead with
  | t :: ts => (some t, { c with history := c.history.push t, ahead := ts })
  | [] =>
    match c.supply.arrivals with
    | a :: rest =>
      (some a.token, { c with
        history := c.history.push a.token
        supply := ⟨rest, c.supply.close⟩
        asked := a.asked })
    | [] => (none, { c with asked := c.supply.close })

/-- Takes `count` tokens from the feed and keeps them, or all that the feed has. -/
def take (c : Cursor) (count : Nat) : Cursor :=
  { c with
    ahead := c.ahead ++ (c.supply.arrivals.take count).map Arrival.token
    supply := ⟨c.supply.arrivals.drop count, c.supply.close⟩
    asked := ((c.supply.arrivals[count - 1]?).map Arrival.asked).getD c.supply.close }

/-- Takes as many tokens from the feed as it needs for `count` of them to be looked at. -/
def fill (c : Cursor) (count : Nat) : Cursor :=
  if count ≤ c.ahead.length then c else c.take (count - c.ahead.length)

/-- The kind of the token `n` places after the next one, if there is such a token. -/
def lookAhead (c : Cursor) (n : Nat) : Option TokenKind × Cursor :=
  let c := c.fill (n + 1)
  ((c.ahead[n]?).map Token.kind, c)

/-- How many of the `size` tokens of the source have been taken from it. -/
def drawn (c : Cursor) (size : Nat) : Nat := min size c.asked

/-! ### Reading and looking ahead, seen from the tokens that remain -/

@[simp] theorem remaining_ofFeed (f : Feed) : (ofFeed f).remaining = f.tokens := rfl

theorem next_fst (c : Cursor) : c.next.1 = c.remaining.head? := by
  unfold next remaining Feed.tokens
  split
  · simp [*]
  · split <;> simp [*]

theorem remaining_next (c : Cursor) : c.next.2.remaining = c.remaining.tail := by
  unfold next remaining Feed.tokens
  split
  · simp [*]
  · split <;> simp [*]

theorem history_next (c : Cursor) :
    c.next.2.history = (c.remaining.head?.map c.history.push).getD c.history := by
  unfold next remaining Feed.tokens
  split
  · simp [*]
  · split <;> simp [*]

@[simp] theorem remaining_fill (c : Cursor) (count : Nat) :
    (c.fill count).remaining = c.remaining := by
  unfold fill
  split
  · rfl
  · simp [take, remaining, Feed.tokens]

@[simp] theorem history_fill (c : Cursor) (count : Nat) : (c.fill count).history = c.history := by
  unfold fill
  split <;> rfl

/-- Filling keeps what is looked at a leading part of what remains, and long enough. -/
theorem getElem?_ahead_fill (c : Cursor) {n count : Nat} (h : n < count) :
    (c.fill count).ahead[n]? = c.remaining[n]? := by
  unfold fill remaining Feed.tokens
  split
  case isTrue hle => rw [List.getElem?_append_left (by omega)]
  case isFalse hlt =>
    simp only [take]
    by_cases hn : n < c.ahead.length
    · rw [List.getElem?_append_left hn, List.getElem?_append_left hn]
    · rw [List.getElem?_append_right (by omega), List.getElem?_append_right (by omega),
        List.map_take, List.getElem?_take_of_lt (by omega)]

@[simp] theorem remaining_lookAhead (c : Cursor) (n : Nat) :
    (c.lookAhead n).2.remaining = c.remaining :=
  c.remaining_fill (n + 1)

@[simp] theorem history_lookAhead (c : Cursor) (n : Nat) :
    (c.lookAhead n).2.history = c.history :=
  c.history_fill (n + 1)

/-- Looking ahead sees what will be read. -/
theorem lookAhead_fst (c : Cursor) (n : Nat) :
    (c.lookAhead n).1 = (c.remaining[n]?).map Token.kind := by
  rw [lookAhead, c.getElem?_ahead_fill (Nat.lt_succ_self n)]

end Cursor

end ScriptReader
