import Mathlib.Data.List.Range
import ScriptReader.Proofs.Grammar.Symbols
import ScriptReader.Proofs.Text.Numeral

/-!
# How far the numbers of symbols reach

The names of a grammar are numbered from zero on in the order in which they first occur, and as
many names as there are numbers can be told apart by them.  The names themselves are always listed
as they should be, and every number leads to a name and back to itself.  What goes wrong if there
are too many of them is the way from a name to its number and what that says about the name.

## Main Definitions

* `Symbols.distinctNames` — the names of a grammar, each once
* `Symbols.Lists` — the symbols have the names that they were given
* `Symbols.Numbers` — the numbers are in order, tell the names apart and say which are terminals

## Main Statements

* `Symbols.toList_names_ofNames` — names are listed in order of first occurrence
* `Symbols.getElem?_of_get?` — names lead to their numbers as long as there are enough of these
* `Symbols.lists_and_numbers_ofNames_iff` — names are always listed, and are numbered just if there
  are enough numbers for all of them and one more than for the terminals

## Design Notes

Numbers are 16-bit words.  The first number of a nonterminal is one of them as well, which is why
there must be one number that is not needed for terminals, even if there are no nonterminals.
-/

namespace ScriptReader.Symbols

variable {s : Symbols} {x : SymbolId} {name : String} {terminals nonterminals : List String}

/-! ## The names of a grammar -/

/-- The names of a grammar, each once, in order of first occurrence: the end of input, the
terminals, the nonterminals. -/
def distinctNames (terminals nonterminals : List String) : List String :=
  (endName :: terminals ++ nonterminals).eraseDups

theorem mem_distinctNames : name ∈ distinctNames terminals nonterminals ↔
    name ∈ endName :: terminals ∨ name ∈ nonterminals := by
  rw [distinctNames, List.mem_eraseDups, List.mem_append]

/-- A name at the end of others is one more only if it is not among them. -/
theorem eraseDups_concat (names : List String) (name : String) :
    (names ++ [name]).eraseDups =
      if name ∈ names then names.eraseDups else names.eraseDups ++ [name] := by
  rw [List.eraseDups_append, List.cons_removeAll, List.nil_removeAll]
  by_cases hname : name ∈ names
  · simp [hname]
  · simp [hname, List.eraseDups_cons]

theorem foldl_insertName (first : String) (more : List String) :
    more.foldl insertName [first] = (first :: more).eraseDups := by
  induction more using List.reverseRecOn with
  | nil => rfl
  | append_singleton more name ih =>
    rw [List.foldl_append, List.foldl_cons, List.foldl_nil, insertName, ih,
      ← List.cons_append, eraseDups_concat]
    simp only [List.mem_eraseDups]

/-- Names are listed in order of first occurrence. -/
theorem toList_names_ofNames (terminals nonterminals : List String) :
    (ofNames terminals nonterminals).names.toList = distinctNames terminals nonterminals := by
  rw [toList_names_ofNames_eq_foldl, foldl_insertName, distinctNames, List.cons_append]

theorem size_ofNames (terminals nonterminals : List String) :
    (ofNames terminals nonterminals).size = (distinctNames terminals nonterminals).length := by
  rw [← toList_names_ofNames, Array.length_toList, size]

theorem firstNonterminal_ofNames (terminals nonterminals : List String) :
    (ofNames terminals nonterminals).firstNonterminal =
      UInt16.ofNat (distinctNames terminals []).length := by
  rw [firstNonterminal_ofNames_eq_length, distinctNames, List.append_nil, foldl_insertName]

/-- Names that are not terminals come after those that are. -/
theorem exists_distinctNames_eq_append (terminals nonterminals : List String) :
    ∃ others, distinctNames terminals nonterminals = distinctNames terminals [] ++ others ∧
      ∀ name ∈ others, name ∉ endName :: terminals := by
  refine ⟨(nonterminals.removeAll (endName :: terminals)).eraseDups, ?_, ?_⟩
  · rw [distinctNames, distinctNames, List.append_nil, List.eraseDups_append]
  · intro name hname
    rw [List.mem_eraseDups, List.removeAll, List.mem_filter] at hname
    simpa using hname.2

/-! ## From names to numbers -/

/-- The number of a place leads there from the name at it, if no name is numbered twice. -/
theorem get?_of_getElem? (hnodup : s.names.toList.Nodup)
    (h : s.names.toList[x.toNat]? = some name) : s.get? name = some x := by
  obtain ⟨hlt, hname⟩ := List.getElem?_eq_some_iff.1 h
  have hx : s.name x = name := by
    rw [Symbols.name, ← Array.getElem?_toList, h, Option.getD_some]
  rw [← hx]
  exact get?_name hnodup hlt

/-- A name leads to its place, as long as there are enough numbers for all of them. -/
theorem getElem?_of_get? (hsize : s.size ≤ UInt16.size) (h : s.get? name = some x) :
    s.names.toList[x.toNat]? = some name := by
  rw [get?_eq_map_toList] at h
  obtain ⟨i, hi, rfl⟩ := Option.map_eq_some_iff.1 h
  obtain ⟨hlt, hname, -⟩ := List.idxOf?_eq_some_iff.1 hi
  have hbound : i < UInt16.size := Nat.lt_of_lt_of_le hlt hsize
  rw [UInt16.toNat_ofNat_of_lt' hbound, List.getElem?_eq_getElem hlt, hname]

/-- The end of input has the number zero. -/
theorem get?_endName_ofNames (terminals nonterminals : List String) :
    (ofNames terminals nonterminals).get? endName = some endId := by
  refine get?_of_getElem? (nodup_names_ofNames terminals nonterminals) ?_
  rw [toList_names_ofNames, distinctNames, List.cons_append, List.eraseDups_cons]
  rfl

/-! ## What numbers are for -/

/-- The symbols of a grammar have the names that they were given, and numbers lead to names and
back. -/
structure Lists (s : Symbols) (terminals nonterminals : List String) : Prop where
  /-- Each name is listed once, in order of first occurrence. -/
  names : s.names.toList = distinctNames terminals nonterminals
  /-- Just these names have a number. -/
  isSome_get? : ∀ name, (s.get? name).isSome = true ↔
    name = endName ∨ name ∈ terminals ∨ name ∈ nonterminals
  /-- The numbers of symbols are those below the number of names. -/
  isSome_ofId? : ∀ x, (s.ofId? x).isSome = true ↔ x.toNat < s.size
  /-- A number leads to a name, and back to itself. -/
  get?_name : ∀ x y, s.ofId? x = some y → y = x ∧ s.get? (s.name y) = some x

/-- The names of a grammar are numbered: the numbers count them from zero on, tell them apart, and
show which of them are terminals. -/
structure Numbers (s : Symbols) (terminals nonterminals : List String) : Prop where
  /-- The number of a name is its place among all of them. -/
  getElem?_iff : ∀ name (i : Nat), (distinctNames terminals nonterminals)[i]? = some name ↔
    ∃ x, s.get? name = some x ∧ x.toNat = i
  /-- Names of the same number are the same. -/
  injective : ∀ name name' x, s.get? name = some x → s.get? name' = some x → name = name'
  /-- A name leads to a number, and back to itself. -/
  name_of_get? : ∀ name x, s.get? name = some x → s.name x = name
  /-- The number of a name shows whether it is that of a terminal. -/
  isTerminal_iff : ∀ name x, s.get? name = some x →
    (s.isTerminal x = true ↔ name = endName ∨ name ∈ terminals)

theorem lists_ofNames (terminals nonterminals : List String) :
    (ofNames terminals nonterminals).Lists terminals nonterminals where
  names := toList_names_ofNames terminals nonterminals
  isSome_get? name := by
    rw [get?_eq_map_toList, Option.isSome_map, List.isSome_idxOf?, toList_names_ofNames,
      mem_distinctNames, List.mem_cons, or_assoc]
  isSome_ofId? x := by
    simp [ofId?]
  get?_name x y h := by
    obtain ⟨hx, rfl⟩ := ofId?_eq_some_iff.1 h
    exact ⟨rfl, get?_name (nodup_names_ofNames terminals nonterminals) hx⟩

/-- Numbers show which names are terminals, as long as there are enough for all names and one that
is not needed for terminals. -/
theorem isTerminal_ofNames_iff
    (hsize : (distinctNames terminals nonterminals).length ≤ UInt16.size)
    (hterminals : (distinctNames terminals []).length < UInt16.size)
    (h : (ofNames terminals nonterminals).get? name = some x) :
    (ofNames terminals nonterminals).isTerminal x = true ↔ name ∈ endName :: terminals := by
  have hplace := getElem?_of_get? (by rwa [size_ofNames]) h
  rw [toList_names_ofNames] at hplace
  obtain ⟨others, hnames, hothers⟩ := exists_distinctNames_eq_append terminals nonterminals
  rw [hnames] at hplace
  rw [isTerminal, firstNonterminal_ofNames, decide_eq_true_iff, UInt16.lt_iff_toNat_lt,
    UInt16.toNat_ofNat_of_lt' hterminals]
  rcases Nat.lt_or_ge x.toNat (distinctNames terminals []).length with hlt | hge
  · rw [List.getElem?_append_left hlt] at hplace
    have hmem := mem_distinctNames.1 (List.mem_of_getElem? hplace)
    simp only [List.not_mem_nil, or_false] at hmem
    exact iff_of_true hlt hmem
  · rw [List.getElem?_append_right hge] at hplace
    exact iff_of_false (Nat.not_lt.2 hge) (hothers name (List.mem_of_getElem? hplace))

/-- Names are numbered if there are enough numbers for all of them and one that is not needed for
terminals. -/
theorem numbers_ofNames (hsize : (distinctNames terminals nonterminals).length ≤ UInt16.size)
    (hterminals : (distinctNames terminals []).length < UInt16.size) :
    (ofNames terminals nonterminals).Numbers terminals nonterminals := by
  have hplace {name : String} {x : SymbolId}
      (h : (ofNames terminals nonterminals).get? name = some x) :=
    getElem?_of_get? (by rwa [size_ofNames]) h
  refine ⟨?_, ?_, ?_, ?_⟩
  · intro name i
    rw [← toList_names_ofNames]
    refine ⟨fun hi => ?_, ?_⟩
    · have hlt : i < UInt16.size := by
        rw [toList_names_ofNames] at hi
        exact Nat.lt_of_lt_of_le (List.getElem?_eq_some_iff.1 hi).1 hsize
      refine ⟨UInt16.ofNat i, ?_, UInt16.toNat_ofNat_of_lt' hlt⟩
      refine get?_of_getElem? (nodup_names_ofNames terminals nonterminals) ?_
      rwa [UInt16.toNat_ofNat_of_lt' hlt]
    · rintro ⟨x, hx, rfl⟩
      exact hplace hx
  · intro name name' x hx hx'
    exact Option.some.inj ((hplace hx).symm.trans (hplace hx'))
  · intro name x hx
    rw [Symbols.name, ← Array.getElem?_toList, hplace hx, Option.getD_some]
  · intro name x hx
    rw [isTerminal_ofNames_iff hsize hterminals hx, List.mem_cons]

/-! ## When numbers run out -/

/-- Where names are numbered, there is a number for each of them. -/
theorem Numbers.length_le (h : s.Numbers terminals nonterminals) :
    (distinctNames terminals nonterminals).length ≤ UInt16.size := by
  refine Nat.not_lt.1 fun hlt => ?_
  -- The first name for which there is no number cannot have its place as number.
  obtain ⟨x, -, hx⟩ := (h.getElem?_iff _ UInt16.size).1 (List.getElem?_eq_getElem hlt)
  exact absurd hx (Nat.ne_of_lt x.toNat_lt)

/-- Where names are numbered, there is a number that is not needed for terminals: otherwise the
first number of a nonterminal would be zero, and the end of input not a terminal. -/
theorem Numbers.length_lt (h : (ofNames terminals nonterminals).Numbers terminals nonterminals) :
    (distinctNames terminals []).length < UInt16.size := by
  obtain ⟨others, hnames, -⟩ := exists_distinctNames_eq_append terminals nonterminals
  have hle := h.length_le
  rw [hnames, List.length_append] at hle
  refine Nat.lt_of_le_of_ne (Nat.le_of_add_right_le hle) fun hfull => ?_
  have hend := (h.isTerminal_iff endName endId (get?_endName_ofNames _ _)).2 (.inl rfl)
  rw [isTerminal, firstNonterminal_ofNames, hfull] at hend
  exact absurd hend (by decide)

/-- **Names are always listed, but numbered only if there are enough numbers.**  They must suffice
for all names, and one of them must not be needed for terminals. -/
theorem lists_and_numbers_ofNames_iff (terminals nonterminals : List String) :
    (ofNames terminals nonterminals).Lists terminals nonterminals ∧
      ((ofNames terminals nonterminals).Numbers terminals nonterminals ↔
        (distinctNames terminals nonterminals).length ≤ UInt16.size ∧
          (distinctNames terminals []).length < UInt16.size) :=
  ⟨lists_ofNames terminals nonterminals,
    fun h => ⟨h.length_le, h.length_lt⟩, fun h => numbers_ofNames h.1 h.2⟩

/-! ### A grammar with too many terminals -/

/-- A name that ends in the digits of `i`. -/
def crowdName (i : Nat) : String := String.ofList (List.replicate (i % 14) 'x') ++ toString i

/-- As many terminals as there are numbers but for that of the end of input. -/
def crowd : List String := (List.range 65535).map crowdName

theorem filter_isDigit_crowdName (i : Nat) :
    (crowdName i).toList.filter Char.isDigit = Nat.toDigits 10 i := by
  have hall : (toString i).toList.filter Char.isDigit = (toString i).toList :=
    List.filter_eq_self.2 fun c hc => Numeral.isDigit_of_mem_toString hc
  rw [crowdName, String.toList_append, List.filter_append, String.toList_ofList, hall,
    List.filter_replicate, Numeral.toList_toString]
  rfl

theorem crowdName_injective : Function.Injective crowdName := by
  intro i j h
  have hdigits : Nat.toDigits 10 i = Nat.toDigits 10 j := by
    rw [← filter_isDigit_crowdName, h, filter_isDigit_crowdName]
  rw [← Nat.ofDigitChars_ten_toDigits (n := i), hdigits, Nat.ofDigitChars_ten_toDigits]

/-- Names that are all different are all that there are. -/
theorem eraseDups_of_nodup {names : List String} (h : names.Nodup) : names.eraseDups = names := by
  induction names with
  | nil => rfl
  | cons name names ih =>
    obtain ⟨hnew, hrest⟩ := List.nodup_cons.1 h
    have hfilter : names.filter (fun other => !other == name) = names := by
      refine List.filter_eq_self.2 fun other hother => ?_
      rw [Bool.not_eq_true', beq_eq_false_iff_ne]
      rintro rfl
      exact hnew hother
    rw [List.eraseDups_cons, hfilter, ih hrest]

theorem length_distinctNames_crowd : (distinctNames crowd []).length = UInt16.size := by
  have hend : endName ∉ crowd := by
    rw [crowd, List.mem_map]
    rintro ⟨i, -, hi⟩
    have hdigits := filter_isDigit_crowdName i
    rw [hi] at hdigits
    exact Nat.toDigits_ne_nil hdigits.symm
  have hnodup : (endName :: crowd).Nodup :=
    List.nodup_cons.2 ⟨hend, List.nodup_range.map crowdName_injective⟩
  rw [distinctNames, List.append_nil, eraseDups_of_nodup hnodup, List.length_cons, crowd,
    List.length_map, List.length_range]

/-- Sixteen bits number all names of this grammar, but call none of them a terminal. -/
theorem not_numbers_crowd : ¬ (ofNames crowd []).Numbers crowd [] := fun h =>
  Nat.ne_of_lt h.length_lt length_distinctNames_crowd

end ScriptReader.Symbols
