import Mathlib.Logic.Relation
import ScriptReader.Proofs.Reading.Fragments
import ScriptReader.Proofs.Rich.Endings
import ScriptReader.Proofs.Text.Octets

/-!
# Rich strings taken apart in rounds

A rich string can be taken apart by an index that moves over its bytes.  Each round looks at one
byte and moves the index past what that byte begins: a quote, a whole interpolation, or a byte of
literal text.  This module does it in that way, and shows that the rounds come to an end, whatever
the text is, with just the tokens that stand for the rich string.

## Main Definitions

* `Rich.codes` — the code in a rich string, in order
* `Rich.Progress` — how far the rounds have come
* `Rich.Progress.step` — one round
* `Rich.Progress.finish` — the tokens once there are no more rounds
* `Rich.RunsThrough` — what is said of all rounds together

## Main Statements

* `Rich.Progress.index_lt_of_step` — a round begins inside of the text and moves the index forward
* `Rich.runsThrough` — every rich string is run through

## Design Notes

The index counts bytes, and most bytes of most texts are characters.  One that is part of a longer
character is not that of a quote, a brace or a backslash, so a character is passed byte by byte as
if it were a single piece of literal text.

An interpolation that is never closed takes the index one byte past the end of the text.  Nothing is
looked at there, and no literal text is left.
-/

namespace ScriptReader.Rich

open Relation

variable {read : String → List Token} {t : Token} {cs done run : List Char} {skip : Nat}
  {parts front back : List Segment}

/-- The code in a rich string, in order. -/
def codes (t : Token) : List String := (bodies t.text.toList).map fun c => String.ofList c.2

/-- The closing brace of code that the text goes on with, if there is one. -/
def closer (cs : List Char) : List Segment :=
  if cs.drop (body cs).length = [] then [] else [.chunk .closeBrace ['}']]

/-! ## Rounds -/

/-- How far the rounds have come. -/
structure Progress where
  /-- The byte that is looked at next. -/
  index : Nat
  /-- Where the literal text before that byte begins. -/
  literal : Nat
  /-- Whether a backslash takes away the meaning of that byte. -/
  escaped : Bool
  /-- The tokens so far. -/
  out : List Token
  /-- The code that has been handed over to be read, in order. -/
  handed : List String

namespace Progress

/-- Nothing has been looked at. -/
def start : Progress := ⟨0, 0, false, [], []⟩

/-- The round of a quote, which literal text comes before unless the quote is the first byte. -/
def onQuote (t : Token) (p : Progress) : Progress :=
  let before :=
    if 0 < p.index then [t.chunk .stringLiteral p.literal (p.index - p.literal)] else []
  { index := p.index + 1
    literal := p.index + 1
    escaped := false
    out := p.out ++ before ++ [t.chunk .quote p.index 1]
    handed := p.handed }

/-- The round of an opening brace: the interpolation is passed as a whole. -/
def onBrace (read : String → List Token) (t : Token) (p : Progress) : Progress :=
  let code := bodyAt t.text (p.index + 1)
  let close := p.index + 1 + code.utf8ByteSize
  { index := close + 1
    literal := min (close + 1) t.text.utf8ByteSize
    escaped := false
    out := p.out ++ [t.chunk .stringLiteral p.literal (p.index - p.literal),
        t.chunk .openBrace p.index 1] ++
      (read code).map (·.shifted (t.span.start.plus (p.index + 1))) ++
      if close < t.text.utf8ByteSize then [t.chunk .closeBrace close 1] else []
    handed := p.handed ++ [code] }

/-- The round of a byte of literal text. -/
def onOther (b : UInt8) (p : Progress) : Progress :=
  { p with
    index := p.index + 1
    escaped := b = '\\'.toUInt8 ∧ ¬ p.escaped }

/-- The round of the byte `b`. -/
def round (read : String → List Token) (t : Token) (p : Progress) (b : UInt8) : Progress :=
  if b = '"'.toUInt8 ∧ ¬ p.escaped then p.onQuote t
  else if b = '{'.toUInt8 ∧ ¬ p.escaped then p.onBrace read t
  else p.onOther b

/-- One round, if there is a byte left to look at. -/
def step (read : String → List Token) (t : Token) (p : Progress) : Option Progress :=
  (Text.bytes t.text)[p.index]?.map (p.round read t)

/-- The tokens once there are no more rounds: literal text that nothing follows comes last. -/
def finish (t : Token) (p : Progress) : List Token :=
  p.out ++
    if p.literal < t.text.utf8ByteSize then
      [t.chunk .stringLiteral p.literal (t.text.utf8ByteSize - p.literal)]
    else []

/-- One round leads from `p` to `q`. -/
def Next (read : String → List Token) (t : Token) (p q : Progress) : Prop :=
  p.step read t = some q

variable {p q : Progress} {b : UInt8} {bs u : List UInt8}

/-! ### The index moves forward -/

theorem index_lt_round (read : String → List Token) (t : Token) (p : Progress) (b : UInt8) :
    p.index < (p.round read t b).index := by
  unfold round
  split
  case isTrue => exact Nat.lt_succ_self _
  case isFalse =>
    split
    case isTrue =>
      show p.index < p.index + 1 + (bodyAt t.text (p.index + 1)).utf8ByteSize + 1
      omega
    case isFalse => exact Nat.lt_succ_self _

/-- A round begins inside of the text and moves the index forward. -/
theorem index_lt_of_step (h : Next read t p q) :
    p.index < q.index ∧ p.index < t.text.utf8ByteSize := by
  obtain ⟨b, hb, rfl⟩ := Option.map_eq_some_iff.1 h
  obtain ⟨hlt, -⟩ := List.getElem?_eq_some_iff.1 hb
  rw [Text.length_bytes] at hlt
  exact ⟨index_lt_round read t p b, hlt⟩

/-- No round begins past the end. -/
theorem step_eq_none (h : t.text.utf8ByteSize ≤ p.index) : p.step read t = none := by
  rw [← Text.length_bytes] at h
  rw [step, List.getElem?_eq_none h, Option.map_none]

/-- There are no more rounds than bytes from the index on. -/
theorem length_add_index_le {later : List Progress} (h : (p :: later).IsChain (Next read t))
    (hne : later ≠ []) : later.length + p.index ≤ t.text.utf8ByteSize := by
  induction later generalizing p with
  | nil => exact absurd rfl hne
  | cons q later ih =>
    obtain ⟨hnext, hlater⟩ := List.isChain_cons_cons.1 h
    obtain ⟨hlt, hinside⟩ := index_lt_of_step hnext
    cases later with
    | nil =>
      -- The last round begins before the end, and only where it leads to may be past it.
      rw [List.length_singleton]
      omega
    | cons r later =>
      have hle := ih hlater (List.cons_ne_nil r later)
      rw [List.length_cons]
      omega

/-! ### Where the rounds end -/

/-- The rounds from `p` on come to an end; they let out the tokens of the given parts, the first of
which begins `skip` bytes into the rich string, and hand over the code in them. -/
def LetsOut (read : String → List Token) (t : Token) (p : Progress) (skip : Nat)
    (parts : List Segment) : Prop :=
  ∃ last, ReflTransGen (Next read t) p last ∧ last.step read t = none ∧
    last.finish t = p.out ++ expandFrom read t skip parts ∧
    last.handed = p.handed ++ (codesFrom skip parts).map fun c => String.ofList c.2

/-- What a round lets out comes before what the rounds after it let out. -/
theorem LetsOut.after (hnext : Next read t p q)
    (hout : q.out = p.out ++ expandFrom read t skip front)
    (hhanded : q.handed = p.handed ++ (codesFrom skip front).map fun c => String.ofList c.2)
    (h : q.LetsOut read t (skip + Text.byteCount (front.flatMap Segment.text)) back) :
    p.LetsOut read t skip (front ++ back) := by
  obtain ⟨last, hrounds, hend, hfinish, hlast⟩ := h
  refine ⟨last, .head hnext hrounds, hend, ?_, ?_⟩
  · rw [hfinish, hout, expandFrom_append, List.append_assoc]
  · rw [hlast, hhanded, codesFrom_append, List.map_append, List.append_assoc]

theorem step_of_drop (h : (Text.bytes t.text).drop p.index = b :: bs) :
    p.step read t = some (p.round read t b) := by
  rw [step, ← List.head?_drop, h]
  rfl

/-- Between pieces: `done` has been taken apart, the literal text `run` has been passed, and `cs`
is left. -/
structure IsAt (t : Token) (done run cs : List Char) (p : Progress) : Prop where
  /-- The three make up the text. -/
  text_eq : t.text.toList = done ++ (run ++ cs)
  /-- What is left begins at the index. -/
  index_eq : p.index = Text.byteCount done + Text.byteCount run
  /-- The literal text begins where the pieces so far end. -/
  literal_eq : p.literal = Text.byteCount done

namespace IsAt

variable {c : Char}

theorem drop_bytes (h : IsAt t done run cs p) :
    (Text.bytes t.text).drop p.index = Text.bytes (.ofList cs) := by
  rw [← String.ofList_toList (s := t.text), h.text_eq, ← List.append_assoc, h.index_eq,
    ← Text.byteCount_append, Text.bytes_drop_append]

/-- An ASCII character at the index is the byte that is looked at. -/
theorem step_eq (read : String → List Token) (h : IsAt t done run (c :: cs) p)
    (hc : c.toNat < 128) : p.step read t = some (p.round read t c.toUInt8) := by
  have hdrop := h.drop_bytes
  rw [Text.bytes_ofList_cons, Text.utf8EncodeChar_of_ascii hc] at hdrop
  exact step_of_drop hdrop

theorem utf8ByteSize_eq (h : IsAt t done run cs p) :
    t.text.utf8ByteSize = p.index + Text.byteCount cs := by
  rw [← Text.byteCount_toList, h.text_eq, h.index_eq, Text.byteCount_append, Text.byteCount_append,
    Nat.add_assoc]

/-- The literal text so far is a part of the token. -/
theorem chunk_literal (read : String → List Token) (h : IsAt t done run cs p) :
    [t.chunk .stringLiteral p.literal (p.index - p.literal)] =
      expandFrom read t (Text.byteCount done) [.chunk .stringLiteral run] := by
  rw [expandFrom_chunk, h.index_eq, h.literal_eq, Nat.add_sub_cancel_left,
    Token.chunk_of_append h.text_eq]
  rfl

/-- The character at the index is a part of the token. -/
theorem chunk_char (read : String → List Token) (h : IsAt t done run (c :: cs) p)
    (hc : c.utf8Size = 1) (k : TokenKind) :
    [t.chunk k p.index 1] =
      expandFrom read t (Text.byteCount done + Text.byteCount run) [.chunk k [c]] := by
  have htext : t.text.toList = (done ++ run) ++ ([c] ++ cs) := by
    rw [h.text_eq, List.append_assoc, List.singleton_append]
  have hsize : Text.byteCount [c] = 1 := by simpa using hc
  have hchunk := Token.chunk_of_append htext k
  rw [hsize, Text.byteCount_append, ← h.index_eq] at hchunk
  rw [expandFrom_chunk, hsize, ← h.index_eq, hchunk]
  rfl

end IsAt

/-! ### One round and what it lets out -/

/-- Rounds that let out nothing. -/
theorem LetsOut.later (hnext : Next read t p q) (hout : q.out = p.out)
    (hhanded : q.handed = p.handed) (h : q.LetsOut read t skip parts) :
    p.LetsOut read t skip parts := by
  obtain ⟨last, hrounds, hend, hfinish, hlast⟩ := h
  exact ⟨last, .head hnext hrounds, hend, hout ▸ hfinish, hhanded ▸ hlast⟩

/-- Bytes that are not ASCII are literal text. -/
theorem LetsOut.bytes (hu : ∀ b ∈ u, 128 ≤ b.toNat) (hne : u ≠ [])
    (hdrop : (Text.bytes t.text).drop p.index = u ++ bs)
    (h : LetsOut read t { p with index := p.index + u.length, escaped := false } skip parts) :
    p.LetsOut read t skip parts := by
  induction u generalizing p with
  | nil => exact absurd rfl hne
  | cons b u ih =>
    have hb : 128 ≤ b.toNat := hu b List.mem_cons_self
    have hother (c : UInt8) (hc : c.toNat < 128) : b ≠ c := by
      rintro rfl
      omega
    have hround : p.round read t b = { p with index := p.index + 1, escaped := false } := by
      rw [round, if_neg fun hb => hother _ (by decide) hb.1,
        if_neg fun hb => hother _ (by decide) hb.1, onOther]
      simp [hother '\\'.toUInt8 (by decide)]
    have hnext : Next read t p { p with index := p.index + 1, escaped := false } := by
      rw [Next, step_of_drop hdrop, hround]
    refine LetsOut.later hnext rfl rfl ?_
    cases u with
    | nil => exact h
    | cons c u =>
      refine ih (fun b hb => hu b (List.mem_cons_of_mem _ hb)) (List.cons_ne_nil c u) ?_ ?_
      · rw [← List.tail_drop, hdrop]
        rfl
      · rw [List.length_cons, Nat.add_comm _ 1, ← Nat.add_assoc] at h
        exact h

/-- The character `c` has been passed as literal text. -/
def passed (c : Char) (p : Progress) : Progress :=
  { p with
    index := p.index + c.utf8Size
    escaped := c = '\\' ∧ ¬ p.escaped }

section Characters

variable {c d : Char} {ds : List Char}

theorem IsAt.passed (h : IsAt t done run (c :: cs) p) :
    IsAt t done (run ++ [c]) cs (p.passed c) where
  text_eq := by rw [h.text_eq, List.append_assoc, List.singleton_append]
  index_eq := by
    show p.index + c.utf8Size = _
    rw [h.index_eq, Text.byteCount_append, Nat.add_assoc]
    rfl
  literal_eq := h.literal_eq

/-- A character of literal text is passed byte by byte. -/
theorem LetsOut.of_passed (h : IsAt t done run (c :: cs) p) (hquote : ¬ (c = '"' ∧ ¬ p.escaped))
    (hbrace : ¬ (c = '{' ∧ ¬ p.escaped)) (hpassed : (p.passed c).LetsOut read t skip parts) :
    p.LetsOut read t skip parts := by
  by_cases hc : c.toNat < 128
  · have hsize : c.utf8Size = 1 := by
      rw [← String.length_utf8EncodeChar, Text.utf8EncodeChar_of_ascii hc, List.length_singleton]
    have hnext : Next read t p (p.passed c) := by
      simp only [Next, h.step_eq read hc, round, Text.toUInt8_inj hc (d := '"') (by decide),
        Text.toUInt8_inj hc (d := '{') (by decide), if_neg hquote, if_neg hbrace, onOther,
        Progress.passed, hsize, Text.toUInt8_inj hc (d := '\\') (by decide)]
    exact .later hnext rfl rfl hpassed
  · have hslash : c ≠ '\\' := by rintro rfl; exact hc (by decide)
    have hdrop := h.drop_bytes
    rw [Text.bytes_ofList_cons] at hdrop
    refine .bytes (fun b => Text.le_of_mem_utf8EncodeChar hc) String.utf8EncodeChar_ne_nil hdrop ?_
    rw [String.length_utf8EncodeChar]
    simpa [Progress.passed, hslash] using hpassed

/-! ### The round of a quote -/

namespace IsAt

theorem next_onQuote (h : IsAt t done run ('"' :: cs) p) (hescaped : ¬ p.escaped) :
    Next read t p (p.onQuote t) := by
  rw [Next, h.step_eq read (by decide), round, if_pos ⟨rfl, hescaped⟩]

theorem onQuote (h : IsAt t done run ('"' :: cs) p) :
    IsAt t (done ++ (run ++ ['"'])) [] cs (p.onQuote t) := by
  have hplace : p.index + 1 = Text.byteCount (done ++ (run ++ ['"'])) := by
    rw [h.index_eq, Text.byteCount_append, Text.byteCount_append, Nat.add_assoc]
    rfl
  exact ⟨by simp [h.text_eq], hplace, hplace⟩

theorem out_onQuote (h : IsAt t done run ('"' :: cs) p) (hindex : 0 < p.index) :
    (p.onQuote t).out = p.out ++ expandFrom read t (Text.byteCount done)
      [.chunk .stringLiteral run, .chunk .quote ['"']] := by
  rw [expandFrom_cons, ← h.chunk_literal read, Segment.text, ← h.chunk_char read rfl,
    Progress.onQuote, if_pos hindex, List.append_assoc]

/-! ### The round of an opening brace -/

theorem next_onBrace (h : IsAt t done run ('{' :: cs) p) (hescaped : ¬ p.escaped) :
    Next read t p (p.onBrace read t) := by
  have hquote : '{'.toUInt8 ≠ '"'.toUInt8 := by decide
  rw [Next, h.step_eq read (by decide), round, if_neg fun hb => hquote hb.1, if_pos ⟨rfl, hescaped⟩]

/-- What is handed over is the body after the brace. -/
theorem bodyAt_eq (h : IsAt t done run ('{' :: cs) p) :
    bodyAt t.text (p.index + 1) = String.ofList (body cs) := by
  have htext : t.text.toList = (done ++ run ++ ['{']) ++ cs := by simp [h.text_eq]
  have hplace : p.index + 1 = Text.byteCount (done ++ run ++ ['{']) := by
    rw [h.index_eq, Text.byteCount_append, Text.byteCount_append]
    rfl
  rw [bodyAt, htext, hplace, Text.dropBytes?_append, Option.getD_some]

/-- Where the closing brace is looked for. -/
theorem close_eq (h : IsAt t done run ('{' :: cs) p) :
    p.index + 1 + (bodyAt t.text (p.index + 1)).utf8ByteSize =
      Text.byteCount (done ++ (run ++ '{' :: body cs)) := by
  rw [h.bodyAt_eq, Text.utf8ByteSize_ofList, h.index_eq, Text.byteCount_append,
    Text.byteCount_append, Text.byteCount_cons, ← Nat.add_assoc, ← Nat.add_assoc]
  rfl

/-- The tokens of the code. -/
theorem map_code (read : String → List Token) (h : IsAt t done run ('{' :: cs) p) :
    (read (bodyAt t.text (p.index + 1))).map
        (·.shifted (t.span.start.plus (p.index + 1))) =
      expandFrom read t (Text.byteCount done + Text.byteCount run + 1) [.code (body cs)] := by
  rw [expandFrom_code, h.bodyAt_eq, h.index_eq]
  exact (List.append_nil _).symm

/-- What comes after the body. -/
theorem text_eq_body (h : IsAt t done run ('{' :: cs) p) :
    t.text.toList = (done ++ (run ++ '{' :: body cs)) ++ cs.drop (body cs).length := by
  simp [h.text_eq, body_append_drop]

theorem utf8ByteSize_eq_body (h : IsAt t done run ('{' :: cs) p) :
    t.text.utf8ByteSize = Text.byteCount (done ++ (run ++ '{' :: body cs)) +
      Text.byteCount (cs.drop (body cs).length) := by
  rw [← Text.byteCount_toList, h.text_eq_body, Text.byteCount_append]

/-- The closing brace is a part of the token. -/
theorem chunk_closer (read : String → List Token) (h : IsAt t done run ('{' :: cs) p) :
    (if Text.byteCount (done ++ (run ++ '{' :: body cs)) < t.text.utf8ByteSize then
        [t.chunk .closeBrace (Text.byteCount (done ++ (run ++ '{' :: body cs))) 1]
      else []) =
      expandFrom read t (Text.byteCount (done ++ (run ++ '{' :: body cs))) (closer cs) := by
  have hsize := h.utf8ByteSize_eq_body
  unfold closer
  cases hdrop : cs.drop (body cs).length with
  | nil =>
    rw [hdrop, Text.byteCount_nil] at hsize
    rw [if_neg (by omega), if_pos rfl]
    rfl
  | cons d ds =>
    obtain rfl := eq_of_drop_bodyFrom hdrop
    have hpos := Char.utf8Size_pos '}'
    rw [hdrop, Text.byteCount_cons] at hsize
    have htext : t.text.toList = (done ++ (run ++ '{' :: body cs)) ++ (['}'] ++ ds) := by
      rw [h.text_eq_body, hdrop, List.singleton_append]
    have hchunk := Token.chunk_of_append htext .closeBrace
    rw [if_pos (by omega), if_neg (List.cons_ne_nil _ ds), expandFrom_chunk]
    exact congrArg ([·]) hchunk

/-- The pieces that an opening brace lets out, the closing brace among them if there is one. -/
theorem out_onBrace (read : String → List Token) (h : IsAt t done run ('{' :: cs) p) :
    (p.onBrace read t).out = p.out ++ expandFrom read t (Text.byteCount done)
      (.chunk .stringLiteral run :: .chunk .openBrace ['{'] :: .code (body cs) :: closer cs) := by
  have hbrace : Text.byteCount done + Text.byteCount run + Text.byteCount ['{'] =
      Text.byteCount done + Text.byteCount run + 1 := rfl
  have hclose : Text.byteCount done + Text.byteCount run + 1 + Text.byteCount (body cs) =
      Text.byteCount (done ++ (run ++ '{' :: body cs)) := by
    rw [← h.close_eq, h.bodyAt_eq, Text.utf8ByteSize_ofList, h.index_eq]
  rw [expandFrom_cons, ← h.chunk_literal read, Segment.text,
    expandFrom_cons _ _ _ (.chunk .openBrace _), ← h.chunk_char read rfl, Segment.text, hbrace,
    expandFrom_cons _ _ _ (.code _), ← h.map_code read, Segment.text, hclose,
    ← h.chunk_closer read, ← h.close_eq]
  simp only [Progress.onBrace, List.append_assoc, List.cons_append, List.nil_append]

/-- After an interpolation that is closed. -/
theorem onBrace (read : String → List Token) (h : IsAt t done run ('{' :: cs) p)
    (hdrop : cs.drop (body cs).length = d :: ds) :
    IsAt t (done ++ (run ++ '{' :: (body cs ++ ['}']))) [] ds (p.onBrace read t) := by
  obtain rfl := eq_of_drop_bodyFrom hdrop
  have hsize := h.utf8ByteSize_eq_body
  rw [hdrop, Text.byteCount_cons] at hsize
  have hone : Char.utf8Size '}' = 1 := rfl
  have hplace : Text.byteCount (done ++ (run ++ '{' :: (body cs ++ ['}']))) =
      Text.byteCount (done ++ (run ++ '{' :: body cs)) + 1 := by
    rw [← List.cons_append, ← List.append_assoc, ← List.append_assoc, Text.byteCount_append,
      List.append_assoc]
    rfl
  refine ⟨?_, ?_, ?_⟩
  · rw [h.text_eq_body, hdrop]
    simp
  · rw [Progress.onBrace, h.close_eq, hplace]
    rfl
  · rw [Progress.onBrace, h.close_eq, hplace]
    exact Nat.min_eq_left (by omega)

/-- After an interpolation that is not closed. -/
theorem onBrace_open (read : String → List Token) (h : IsAt t done run ('{' :: cs) p)
    (hdrop : cs.drop (body cs).length = []) :
    t.text.utf8ByteSize ≤ (p.onBrace read t).index ∧
      t.text.utf8ByteSize ≤ (p.onBrace read t).literal := by
  have hsize := h.utf8ByteSize_eq_body
  rw [hdrop, Text.byteCount_nil, Nat.add_zero, ← h.close_eq] at hsize
  rw [Progress.onBrace, ← hsize]
  exact ⟨Nat.le_succ _, Nat.le_min.2 ⟨Nat.le_succ _, Nat.le_refl _⟩⟩

theorem handed_onBrace (read : String → List Token) (h : IsAt t done run ('{' :: cs) p) :
    (p.onBrace read t).handed = p.handed ++ (codesFrom (Text.byteCount done)
      (.chunk .stringLiteral run :: .chunk .openBrace ['{'] :: .code (body cs) :: closer cs)).map
        fun c => String.ofList c.2 := by
  have hcloser (skip : Nat) : codesFrom skip (closer cs) = [] := by
    unfold closer
    split <;> rfl
  simp [Progress.onBrace, h.bodyAt_eq, codesFrom, hcloser]

end IsAt

/-! ### All rounds -/

/-- Nothing more is let out past the end. -/
theorem letsOut_nil (hindex : t.text.utf8ByteSize ≤ p.index)
    (hliteral : t.text.utf8ByteSize ≤ p.literal) : p.LetsOut read t skip [] := by
  refine ⟨p, .refl, step_eq_none hindex, ?_, ?_⟩
  · rw [finish, if_neg (by omega)]
    rfl
  · exact (List.append_nil _).symm

/-- Literal text that nothing follows comes last. -/
theorem IsAt.letsOut_literal (h : IsAt t done run [] p) :
    p.LetsOut read t (Text.byteCount done) (literalThen run []) := by
  have hsize := h.utf8ByteSize_eq
  rw [Text.byteCount_nil, Nat.add_zero] at hsize
  cases run with
  | nil =>
    refine letsOut_nil (by omega) ?_
    rw [hsize, h.index_eq, h.literal_eq]
    exact Nat.le_refl _
  | cons c run =>
    have hpos := c.utf8Size_pos
    have hless : p.literal < t.text.utf8ByteSize := by
      rw [hsize, h.index_eq, h.literal_eq, Text.byteCount_cons]
      omega
    refine ⟨p, .refl, step_eq_none (by omega), ?_, (List.append_nil _).symm⟩
    rw [finish, if_pos hless, hsize, h.chunk_literal read, literalThen_eq_cons (by simp)]

/-- **The rounds find the pieces that cutting finds.**  A quote must not be the first byte, where it
has no literal text before it. -/
theorem letsOut_cut (read : String → List Token) (escaped : Bool) (cs : List Char) :
    ∀ (done run : List Char) (p : Progress), IsAt t done run cs p → p.escaped = escaped →
      (cs.head? = some '"' → 0 < p.index) →
        p.LetsOut read t (Text.byteCount done)
          (literalThen (run ++ (cut escaped cs).1) (cut escaped cs).2) := by
  fun_induction cut escaped cs with
  | case1 =>
    intro done run p h _ _
    rw [List.append_nil]
    exact h.letsOut_literal
  | case2 escaped c cs hquote after ih =>
    intro done run p h hescaped hfirst
    obtain ⟨rfl, hquote⟩ := hquote
    have hback := ih _ [] _ h.onQuote rfl fun _ => Nat.succ_pos _
    rw [List.append_nil, literalThen_eq_cons (by simp)]
    show LetsOut _ _ _ _ ([.chunk .stringLiteral run, .chunk .quote ['"']] ++
      literalThen after.1 after.2)
    refine .after (h.next_onQuote (hescaped ▸ hquote)) (h.out_onQuote (hfirst rfl))
      (List.append_nil _).symm ?_
    simpa [Segment.text, after, Nat.add_assoc] using hback
  | case3 escaped c cs hquote hbrace code hdrop =>
    intro done run p h hescaped hfirst
    obtain ⟨rfl, hbrace⟩ := hbrace
    -- The code reaches to the end, and the index is past it after this round.
    have hcloser : closer cs = [] := if_pos hdrop
    have hout := h.out_onBrace read
    have hhanded := h.handed_onBrace read
    obtain ⟨hindex, hliteral⟩ := h.onBrace_open read hdrop
    rw [hcloser] at hout hhanded
    rw [List.append_nil, literalThen_eq_cons (by simp), ← List.append_nil (_ :: _)]
    exact .after (h.next_onBrace (hescaped ▸ hbrace)) hout hhanded (letsOut_nil hindex hliteral)
  | case4 escaped c cs hquote hbrace code d ds hdrop after ih =>
    intro done run p h hescaped hfirst
    obtain ⟨rfl, hbrace⟩ := hbrace
    have hcloser : closer cs = [.chunk .closeBrace ['}']] := if_neg (by simp [code, hdrop])
    have hout := h.out_onBrace read
    have hhanded := h.handed_onBrace read
    have hback := ih _ [] _ (h.onBrace read hdrop) rfl fun _ => Nat.succ_pos _
    obtain rfl := eq_of_drop_bodyFrom hdrop
    rw [hcloser] at hout hhanded
    rw [List.append_nil, literalThen_eq_cons (by simp)]
    show LetsOut _ _ _ _ ([.chunk .stringLiteral run, .chunk .openBrace ['{'], .code (body cs),
      .chunk .closeBrace ['}']] ++ literalThen after.1 after.2)
    refine .after (h.next_onBrace (hescaped ▸ hbrace)) hout hhanded ?_
    simpa [Segment.text, code, after, Nat.add_assoc] using hback
  | case5 escaped c cs hquote hbrace after ih =>
    intro done run p h hescaped hfirst
    subst hescaped
    have hpos := c.utf8Size_pos
    have hlater := ih _ _ _ h.passed rfl fun _ => by
      show 0 < p.index + c.utf8Size
      omega
    rw [List.append_assoc, List.singleton_append] at hlater
    exact .of_passed h hquote hbrace hlater

/-- **The rounds let out the tokens of the pieces**, and hand over the code among them. -/
theorem letsOut_segments (read : String → List Token) (t : Token) :
    start.LetsOut read t 0 (segments t.text.toList) := by
  have hstart : IsAt t [] [] t.text.toList start := ⟨rfl, rfl, rfl⟩
  cases htext : t.text.toList with
  | nil =>
    rw [htext] at hstart
    exact hstart.letsOut_literal
  | cons c cs =>
    rw [htext] at hstart
    rw [segments]
    split
    case isTrue hquote =>
      -- No literal text comes before the first quote.
      obtain rfl := hquote
      have hback := letsOut_cut read false cs _ [] _ hstart.onQuote rfl fun _ => Nat.succ_pos _
      have hout : (start.onQuote t).out = [] ++ expandFrom read t 0 [.chunk .quote ['"']] :=
        hstart.chunk_char read rfl .quote
      exact .after (hstart.next_onQuote Bool.false_ne_true) hout rfl hback
    case isFalse hquote =>
      exact letsOut_cut read false _ [] [] _ hstart rfl fun hfirst =>
        absurd (Option.some.inj hfirst) hquote

end Characters

end Progress

/-! ## Rich strings are run through -/

/-- How a rich string is taken apart in rounds. -/
structure RunsThrough (read : String → List Token) (t : Token) : Prop where
  /-- Each round begins inside of the text and moves the index forward. -/
  index_lt : ∀ p q : Progress, p.Next read t q →
    p.index < q.index ∧ p.index < t.text.utf8ByteSize
  /-- There are no more rounds than bytes. -/
  length_le : ∀ later : List Progress, (Progress.start :: later).IsChain (Progress.Next read t) →
    later.length ≤ t.text.utf8ByteSize
  /-- The rounds come to an end.  They have let out the tokens that stand for the rich string, and
  handed over the code in it. -/
  ends : ∃ last : Progress, ReflTransGen (Progress.Next read t) Progress.start last ∧
    last.step read t = none ∧ last.finish t = expand read t ∧ last.handed = codes t

/-- **Every rich string is run through**, whatever its text is and however code is read. -/
theorem runsThrough (read : String → List Token) (t : Token) : RunsThrough read t where
  index_lt _ _ h := Progress.index_lt_of_step h
  length_le later h := by
    cases later with
    | nil => exact Nat.zero_le _
    | cons q later => exact Progress.length_add_index_le h (List.cons_ne_nil q later)
  ends := by
    obtain ⟨last, hrounds, hend, hfinish, hhanded⟩ := Progress.letsOut_segments read t
    refine ⟨last, hrounds, hend, hfinish, ?_⟩
    rw [hhanded, codesFrom_segments]
    rfl

end ScriptReader.Rich
