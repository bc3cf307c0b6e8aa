import Mathlib.Data.List.Nodup
import ScriptReader.Grammar.Symbols

/-!
# Names and numbers of symbols

A symbol can be given by its name or by its number, and its name leads back to its number.

## Main Definitions

* `Symbols.Knows` — a number is that of a symbol

## Main Statements

* `Symbols.knows_of_get?`, `Symbols.knows_of_ofId?` — what is looked up is a symbol
* `Symbols.nodup_names_ofNames` — no name is numbered twice
* `Symbols.get?_name` — the name of a symbol leads back to its number
-/

namespace ScriptReader.Symbols

variable {s : Symbols} {x y : SymbolId} {name : String}

/-- There is a symbol with the number `x`. -/
def Knows (s : Symbols) (x : SymbolId) : Prop := x.toNat < s.size

/-! ## Looking up -/

theorem ofId?_eq_some_iff : s.ofId? x = some y ↔ s.Knows x ∧ x = y := by
  simp [ofId?, Knows]

theorem knows_of_ofId? (h : s.ofId? x = some y) : s.Knows y := by
  obtain ⟨hknown, rfl⟩ := ofId?_eq_some_iff.1 h
  exact hknown

/-- A name has the number of the place at which it stands. -/
theorem get?_eq_map_toList (s : Symbols) (name : String) :
    s.get? name = (s.names.toList.idxOf? name).map UInt16.ofNat :=
  s.getElem?_ids name

theorem knows_of_get? (h : s.get? name = some x) : s.Knows x := by
  rw [get?_eq_map_toList] at h
  obtain ⟨i, hi, rfl⟩ := Option.map_eq_some_iff.1 h
  obtain ⟨hlt, -⟩ := List.idxOf?_eq_some_iff.1 hi
  calc (UInt16.ofNat i).toNat
      = i % 2 ^ 16 := UInt16.toNat_ofNat'
    _ ≤ i := Nat.mod_le _ _
    _ < s.size := hlt

/-! ## Names are numbered once -/

/-- The names with one more, unless it is among them. -/
def insertName (names : List String) (name : String) : List String :=
  if name ∈ names then names else names ++ [name]

theorem toList_names_add (s : Symbols) (name : String) :
    (s.add name).names.toList = insertName s.names.toList name := by
  unfold add insertName
  by_cases h : name ∈ s.names.toList
  · rw [dif_pos ((s.mem_ids_iff name).2 h), if_pos h]
  · rw [dif_neg (mt (s.mem_ids_iff name).1 h), if_neg h, Array.toList_push]

theorem toList_names_foldl_add (s : Symbols) (more : List String) :
    (more.foldl add s).names.toList = more.foldl insertName s.names.toList := by
  induction more generalizing s with
  | nil => rfl
  | cons name more ih => rw [List.foldl_cons, ih, toList_names_add, List.foldl_cons]

theorem firstNonterminal_foldl_add (s : Symbols) (more : List String) :
    (more.foldl add s).firstNonterminal = s.firstNonterminal := by
  induction more generalizing s with
  | nil => rfl
  | cons name more ih =>
    rw [List.foldl_cons, ih, add]
    split <;> rfl

theorem toList_names_end : (empty.add endName).names.toList = [endName] :=
  (toList_names_add empty endName).trans (if_neg List.not_mem_nil)

theorem nodup_insertName {names : List String} (h : names.Nodup) (name : String) :
    (insertName names name).Nodup := by
  unfold insertName
  split
  case isTrue => exact h
  case isFalse hnew =>
    exact h.append (List.nodup_singleton name) (List.disjoint_singleton.2 hnew)

theorem nodup_foldl_insertName {names : List String} (h : names.Nodup) (more : List String) :
    (more.foldl insertName names).Nodup := by
  induction more generalizing names with
  | nil => exact h
  | cons name more ih => exact ih (nodup_insertName h name)

theorem toList_names_ofNames_eq_foldl (terminals nonterminals : List String) :
    (ofNames terminals nonterminals).names.toList =
      (terminals ++ nonterminals).foldl insertName [endName] := by
  rw [ofNames, toList_names_foldl_add, toList_names_foldl_add, toList_names_end, List.foldl_append]

theorem firstNonterminal_ofNames_eq_length (terminals nonterminals : List String) :
    (ofNames terminals nonterminals).firstNonterminal =
      UInt16.ofNat (terminals.foldl insertName [endName]).length := by
  rw [ofNames, firstNonterminal_foldl_add, ← toList_names_end, ← toList_names_foldl_add,
    Array.length_toList]

/-- No name is numbered twice. -/
theorem nodup_names_ofNames (terminals nonterminals : List String) :
    (ofNames terminals nonterminals).names.toList.Nodup := by
  rw [toList_names_ofNames_eq_foldl]
  exact nodup_foldl_insertName (List.nodup_singleton endName) _

/-- The name of a symbol leads back to its number, if no name is numbered twice. -/
theorem get?_name (hnodup : s.names.toList.Nodup) (hx : s.Knows x) :
    s.get? (s.name x) = some x := by
  have hlt : x.toNat < s.names.toList.length := hx
  have hname : s.name x = s.names.toList[x.toNat] := by
    rw [name, Array.getElem?_eq_getElem hx, Option.getD_some]
    exact Array.getElem_toList hlt
  have hindex : s.names.toList.idxOf? (s.name x) = some x.toNat := by
    rw [List.idxOf?_eq_some_iff]
    refine ⟨hlt, hname.symm, ?_⟩
    intro j hj hsame
    rw [hname] at hsame
    exact Nat.ne_of_lt hj ((hnodup.getElem_inj_iff).1 hsame)
  rw [get?_eq_map_toList, hindex]
  exact congrArg some UInt16.ofNat_toNat

end ScriptReader.Symbols
