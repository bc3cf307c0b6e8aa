import Mathlib.Data.List.TakeDrop
import Mathlib.Data.List.TakeWhile
import ScriptReader.Proofs.Grammar.Tables
import ScriptReader.Proofs.Text.Numeral

/-!
# How actions and keys are spelled

Encoded tables are read entry by entry.  This module says which texts stand for actions and which
for keys of entries, without a word about how they are read, and that just these are read.

## Main Definitions

* `Action.Spells` — a text stands for an action
* `ParseTable.SpellsKey` — a text stands for the numbers of a state and of a symbol
* `Action.Decodes`, `ParseTable.DecodesKey` — texts are read as what they stand for, and all others
  are refused

## Main Statements

* `Action.decodes_parse` — actions are read as they are spelled
* `Action.parse_toString` — an action that is written out is read back, with one exception
* `ParseTable.decodesKey_decodeKey` — keys are read as they are spelled
* `ParseTable.decodes_entries` — all of this at once

## Design Notes

That a number is not too great is said by its type: a numeral stands for a state if its value is the
number of one.  The exception is a reduction by production zero, which is spelled `r0` and read as
accepting.
-/

namespace ScriptReader

/-! ## Actions -/

namespace Action

variable {text : String} {a : Action} {op : Char} {cs : List Char}

/-- The text stands for an action: a word or a reduction by production zero for accepting, and a
letter with the number of the state or of the production for all else. -/
inductive Spells (text : String) : Action → Prop
  | accept (word : text = "a" ∨ text = "acc") : Spells text .accept
  | reduceZero {cs : List Char} (spelled : text.toList = 'r' :: cs)
      (numeral : Numeral.Denotes cs 0) : Spells text .accept
  | shift {cs : List Char} {p : StateId} (spelled : text.toList = 's' :: cs)
      (numeral : Numeral.Denotes cs p.toNat) : Spells text (.shift p)
  | reduce {cs : List Char} {p : ProductionId} (spelled : text.toList = 'r' :: cs)
      (numeral : Numeral.Denotes cs p.toNat) (nonzero : p ≠ 0) : Spells text (.reduce p)

/-- A text is read as what it stands for, and one that stands for nothing is refused. -/
structure Decodes (text : String) (result : Except LoadError Action) : Prop where
  /-- Just what the text stands for is read. -/
  ok : ∀ a, result = .ok a ↔ Spells text a
  /-- Otherwise the text is reported. -/
  bad : (∀ a, ¬ Spells text a) → result = .error (.badAction text)

/-- A letter and a numeral are read as the action that the letter stands for. -/
theorem parse_of_denotes {p : UInt32} (hop : op ≠ 'a') (spelled : text.toList = op :: cs)
    (numeral : Numeral.Denotes cs p.toNat) :
    parse text =
      if op = 's' then .ok (.shift p)
      else if op = 'r' then .ok (if p.toNat = 0 then .accept else .reduce p)
      else .error (.badAction text) := by
  have hword : ¬(text = "a" ∨ text = "acc") := by
    rintro (rfl | rfl) <;> simp [Ne.symm hop] at spelled
  have hread : Numeral.read? UInt32.size cs = some p.toNat :=
    Numeral.read?_eq_some_iff.2 ⟨numeral, p.toNat_lt⟩
  rw [parse, if_neg hword]
  simp only [spelled, hread, UInt32.ofNat_toNat]

/-- What a text stands for is read. -/
theorem Spells.parse_eq (h : Spells text a) : parse text = .ok a := by
  cases h with
  | accept word => exact if_pos word
  | reduceZero spelled numeral =>
    exact parse_of_denotes (p := 0) (by decide) spelled numeral
  | shift spelled numeral =>
    rw [parse_of_denotes (by decide) spelled numeral, if_pos rfl]
  | @reduce cs p spelled numeral nonzero =>
    have hp : p.toNat ≠ 0 := fun h => nonzero (UInt32.toNat_inj.1 h)
    rw [parse_of_denotes (by decide) spelled numeral, if_neg (by decide), if_pos rfl, if_neg hp]

/-- A text stands for an action, or else it is refused. -/
theorem exists_spells_or_parse_eq (text : String) :
    (∃ a, Spells text a) ∨ parse text = .error (.badAction text) := by
  rw [parse]
  split
  case isTrue word => exact .inl ⟨_, .accept word⟩
  case isFalse =>
    split
    case h_1 => exact .inr rfl
    case h_2 op cs spelled =>
      split
      case h_1 => exact .inr rfl
      case h_2 n hread =>
        obtain ⟨numeral, below⟩ := Numeral.read?_eq_some_iff.1 hread
        rw [← UInt32.toNat_ofNat_of_lt' below] at numeral
        split_ifs with hs hr
        · subst hs
          exact .inl ⟨_, .shift spelled numeral⟩
        · subst hr
          by_cases hzero : UInt32.ofNat n = 0
          · rw [hzero] at numeral
            exact .inl ⟨_, .reduceZero spelled numeral⟩
          · exact .inl ⟨_, .reduce spelled numeral hzero⟩
        · exact .inr rfl

/-- Actions are read as they are spelled. -/
theorem decodes_parse (text : String) : Decodes text (parse text) where
  ok a := by
    refine ⟨fun h => ?_, Spells.parse_eq⟩
    rcases exists_spells_or_parse_eq text with ⟨b, hb⟩ | hbad
    · rw [hb.parse_eq] at h
      rwa [← Except.ok.inj h]
    · rw [hbad] at h
      cases h
  bad h := (exists_spells_or_parse_eq text).resolve_left fun ⟨a, ha⟩ => h a ha

/-- An action is written as it is spelled, unless it is a reduction by production zero. -/
theorem spells_toString (ha : a ≠ .reduce 0) : Spells (toString a) a := by
  cases a with
  | shift p =>
    have htext : (toString (shift p)).toList = 's' :: (toString p.toNat).toList := by
      simp [toString]
    exact .shift htext (Numeral.denotes_toString _)
  | reduce p =>
    have htext : (toString (reduce p)).toList = 'r' :: (toString p.toNat).toList := by
      simp [toString]
    exact .reduce htext (Numeral.denotes_toString _) fun hp => ha (congrArg reduce hp)
  | accept => exact .accept (.inr rfl)

/-- An action that is written out is read back, unless it is a reduction by production zero. -/
theorem parse_toString (ha : a ≠ .reduce 0) : parse (toString a) = .ok a :=
  (spells_toString ha).parse_eq

end Action

/-! ## Keys -/

namespace ParseTable

variable {key : String} {p : StateId} {x : SymbolId}

/-- The key stands for the numbers of a state and of a symbol: the two numerals stand before and
after the first dash. -/
inductive SpellsKey (key : String) (p : StateId) (x : SymbolId) : Prop
  | intro {state symbol : List Char} (spelled : key.toList = state ++ '-' :: symbol)
      (first : '-' ∉ state) (stateNumeral : Numeral.Denotes state p.toNat)
      (symbolNumeral : Numeral.Denotes symbol x.toNat)

/-- A key is read as what it stands for if there is such a symbol; otherwise the symbol is reported
by its number, or the key if it stands for nothing. -/
structure DecodesKey (t : ParseTable) (key : String)
    (result : Except LoadError (StateId × SymbolId)) : Prop where
  /-- Just what the key stands for is read, if there is such a symbol. -/
  ok : ∀ p x, result = .ok (p, x) ↔ SpellsKey key p x ∧ x.toNat < t.symbols.size
  /-- If there is no such symbol, its number is reported. -/
  unknown : ∀ p x, SpellsKey key p x → t.symbols.size ≤ x.toNat →
    result = .error (.unknownSymbol (toString x.toNat))
  /-- A key that stands for nothing is reported itself. -/
  bad : (∀ p x, ¬ SpellsKey key p x) → result = .error (.badKey key)

/-- What a key stands for is read if there is such a symbol. -/
theorem SpellsKey.decodeKey_eq (h : SpellsKey key p x) (t : ParseTable) :
    t.decodeKey key =
      if x.toNat < t.symbols.size then .ok (p, x)
      else .error (.unknownSymbol (toString x.toNat)) := by
  obtain ⟨spelled, first, stateNumeral, symbolNumeral⟩ := h
  rename_i state symbol
  have hspan : key.toList.span (· ≠ '-') = (state, '-' :: symbol) := by
    have hother : ∀ c ∈ state, decide (c ≠ '-') = true := by
      intro c hc
      rw [decide_eq_true_iff]
      rintro rfl
      exact first hc
    rw [spelled, List.span_eq_takeWhile_dropWhile, List.takeWhile_append_of_pos hother,
      List.dropWhile_append_of_pos hother]
    simp
  have hstate : Numeral.read? UInt32.size state = some p.toNat :=
    Numeral.read?_eq_some_iff.2 ⟨stateNumeral, p.toNat_lt⟩
  have hsymbol : Numeral.read? UInt16.size symbol = some x.toNat :=
    Numeral.read?_eq_some_iff.2 ⟨symbolNumeral, x.toNat_lt⟩
  rw [decodeKey, hspan]
  simp only [hstate, hsymbol, UInt32.ofNat_toNat, UInt16.ofNat_toNat, Symbols.ofId?]
  split_ifs <;> rfl

/-- A key stands for a state and a symbol, or else it is refused. -/
theorem exists_spellsKey_or_decodeKey_eq (t : ParseTable) (key : String) :
    (∃ p x, SpellsKey key p x) ∨ t.decodeKey key = .error (.badKey key) := by
  rw [decodeKey]
  split
  case h_1 => exact .inr rfl
  case h_2 state dash symbol hspan =>
    split
    case h_1 n m hn hm =>
      obtain ⟨stateNumeral, hn⟩ := Numeral.read?_eq_some_iff.1 hn
      obtain ⟨symbolNumeral, hm⟩ := Numeral.read?_eq_some_iff.1 hm
      rw [← UInt32.toNat_ofNat_of_lt' hn] at stateNumeral
      rw [← UInt16.toNat_ofNat_of_lt' hm] at symbolNumeral
      rw [List.span_eq_takeWhile_dropWhile, Prod.mk.injEq] at hspan
      obtain ⟨rfl, hrest⟩ := hspan
      obtain rfl : dash = '-' := by
        have hhead := List.head?_dropWhile_not (· ≠ '-') key.toList
        rw [hrest] at hhead
        simpa using hhead
      have spelled : key.toList = key.toList.takeWhile (· ≠ '-') ++ '-' :: symbol := by
        rw [← hrest, List.takeWhile_append_dropWhile]
      have first : '-' ∉ key.toList.takeWhile (· ≠ '-') := fun hmem =>
        absurd (List.mem_takeWhile_imp hmem) (by decide)
      exact .inl ⟨_, _, .intro spelled first stateNumeral symbolNumeral⟩
    case h_2 => exact .inr rfl

/-- Keys are read as they are spelled. -/
theorem decodesKey_decodeKey (t : ParseTable) (key : String) :
    DecodesKey t key (t.decodeKey key) where
  ok p x := by
    refine ⟨fun h => ?_, fun ⟨hkey, hx⟩ => (hkey.decodeKey_eq t).trans (if_pos hx)⟩
    rcases exists_spellsKey_or_decodeKey_eq t key with ⟨q, y, hkey⟩ | hbad
    · rw [hkey.decodeKey_eq] at h
      split_ifs at h with hy
      obtain ⟨rfl, rfl⟩ := Prod.mk.injEq .. ▸ Except.ok.inj h
      exact ⟨hkey, hy⟩
    · rw [hbad] at h
      cases h
  unknown _ _ hkey hx := (hkey.decodeKey_eq t).trans (if_neg (Nat.not_lt.2 hx))
  bad h := (exists_spellsKey_or_decodeKey_eq t key).resolve_left fun ⟨p, x, hkey⟩ => h p x hkey

/-- **Actions and keys are read as they are spelled**, and all but one action are written so that
they are read back. -/
theorem decodes_entries :
    (∀ text, Action.Decodes text (Action.parse text)) ∧
      (∀ a : Action, a ≠ .reduce 0 → Action.parse (toString a) = .ok a) ∧
      ∀ (t : ParseTable) key, t.DecodesKey key (t.decodeKey key) :=
  ⟨Action.decodes_parse, fun _ => Action.parse_toString, decodesKey_decodeKey⟩

end ParseTable

end ScriptReader
