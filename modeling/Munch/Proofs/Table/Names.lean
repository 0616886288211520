import Munch.Proofs.Table.Assembly
import Munch.Proofs.Table.RoundTrip

/-!
# Symbols by name and by number

A table looks a symbol up by its name in an index, and by its number in the list of its symbols.
Validation fills the index name by name, and numbers are words of 32 bits.

* `indexNames_getElem?` — what the index holds for a name: the number of its place, unless it was
  known before. `Table.Validated.symbolId?_eq_some_iff` — so it is with the index of a table.
* `Table.NamesInverse` — the two look-ups are inverse to each other.
* `Table.validated_of_load`, `Table.validated_of_decode` — a table that was read from JSON went
  through validation, too.
* `Table.Validated.lookups_inverse` — the look-ups of a table are inverse to each other as long as
  there is a number for each of its symbols.
-/

namespace Munch

/-! ## The index -/

/-- **The index holds every name under the number of its place**, and what was known before. -/
theorem indexNames_getElem? {names : List String} {index : Nat}
    {known indexed : Std.HashMap String SymbolId} (h : indexNames index names known = .ok indexed)
    (name : String) (id : SymbolId) :
    indexed[name]? = some id ↔
      known[name]? = some id ∨ ∃ i, names[i]? = some name ∧ id = .ofIndex (index + i) := by
  induction names generalizing index known with
  | nil =>
    cases h
    simp
  | cons first rest ih =>
    rw [indexNames] at h
    split at h
    · cases h
    rename_i hnew
    rw [ih h, Std.HashMap.getElem?_insert]
    -- the place of a name in the list is the first one, or one of the rest
    have hplaces : (∃ i, (first :: rest)[i]? = some name ∧ id = .ofIndex (index + i)) ↔
        (first = name ∧ id = .ofIndex index) ∨
          ∃ i, rest[i]? = some name ∧ id = .ofIndex (index + 1 + i) := by
      constructor
      · rintro ⟨_ | i, hname, hid⟩
        · exact Or.inl ⟨Option.some.inj hname, hid⟩
        · exact Or.inr ⟨i, hname, by rw [hid, Nat.add_assoc, Nat.add_comm 1 i]⟩
      · rintro (⟨rfl, hid⟩ | ⟨i, hname, hid⟩)
        · exact ⟨0, rfl, hid⟩
        · exact ⟨i + 1, hname, by rw [hid, Nat.add_assoc, Nat.add_comm 1 i]⟩
    rw [hplaces, ← or_assoc]
    refine or_congr_left ?_
    by_cases hname : first = name
    · subst hname
      have hunknown : known[first]? = none := by simpa using hnew
      simp [hunknown, eq_comm]
    · simp [hname]

namespace Table

variable {t : Table} {name : String} {id : SymbolId}

/-- **The index of a validated table leads from a name to the number of its place.** -/
theorem Validated.symbolId?_eq_some_iff (valid : t.Validated) :
    t.symbolId? name = some id ↔
      ∃ i, t.symbols[i]?.map (·.name) = some name ∧ id = .ofIndex i := by
  obtain ⟨d, hd⟩ := valid
  obtain ⟨_, hnames, hdraft⟩ := Draft.validate_eq_ok_iff.1 hd
  have hsymbols : t.symbols = d.symbols := congrArg Draft.symbols hdraft
  rw [← hsymbols] at hnames
  have hindex := indexNames_getElem? hnames name id
  simp only [Std.HashMap.getElem?_empty, reduceCtorEq, false_or, List.getElem?_map,
    Array.getElem?_toList, Nat.zero_add] at hindex
  exact hindex

theorem symbolName?_eq_none_iff : t.symbolName? id = none ↔ t.symbols.size ≤ id.index := by
  rw [symbolName?, Option.map_eq_none_iff, Array.getElem?_eq_none_iff]

/-- The look-ups by name and by number are inverse to each other. -/
structure NamesInverse (t : Table) : Prop where
  inverse : ∀ name id, t.symbolId? name = some id ↔ t.symbolName? id = some name
  /-- What can be looked up by name are the names of the symbols. -/
  named : ∀ name, (t.symbolId? name).isSome ↔ ∃ symbol ∈ t.symbols, symbol.name = name
  /-- What can be looked up by number are the numbers below that of the symbols. -/
  numbered : ∀ id, (t.symbolName? id).isSome ↔ id.index < t.symbols.size

/-- **As long as all symbols have a number of their own, names and numbers are inverse.** -/
theorem Validated.namesInverse (valid : t.Validated) (few : t.symbols.size ≤ UInt32.size) :
    t.NamesInverse := by
  constructor
  case inverse =>
    intro name id
    rw [valid.symbolId?_eq_some_iff]
    constructor
    · rintro ⟨i, hname, rfl⟩
      obtain ⟨symbol, hsymbol, _⟩ := Option.map_eq_some_iff.1 hname
      obtain ⟨hi, _⟩ := Array.getElem?_eq_some_iff.1 hsymbol
      -- a place below the size of the word is not lost in its number
      have hindex : (Ident.ofIndex i : SymbolId).index = i :=
        Ident.index_ofIndex (Nat.lt_of_lt_of_le hi few)
      rw [symbolName?, hindex]
      exact hname
    · intro hname
      exact ⟨id.index, hname, (Ident.ofIndex_index id).symm⟩
  case named =>
    intro name
    rw [Option.isSome_iff_exists]
    simp only [valid.symbolId?_eq_some_iff, Option.map_eq_some_iff, Array.mem_iff_getElem?]
    constructor
    · rintro ⟨_, i, ⟨symbol, hsymbol, hname⟩, _⟩
      exact ⟨symbol, ⟨i, hsymbol⟩, hname⟩
    · rintro ⟨symbol, ⟨i, hsymbol⟩, hname⟩
      exact ⟨_, i, ⟨symbol, hsymbol, hname⟩, rfl⟩
  case numbered =>
    intro id
    rw [← Option.ne_none_iff_isSome, ne_eq, symbolName?_eq_none_iff, Nat.not_le]

/-! ## Tables from JSON -/

/-- Building goes on with the outcome of validation. -/
theorem result_build_bind {β : Type} (d : Draft) (f : Except TableError Table → Logged β) :
    (d.build >>= f).result = (f d.validate).result := by
  rw [Logged.bind_ok d.build_result]

/-- A table that was read from JSON went through validation. -/
theorem validated_of_load {feed : Json.Feed} (h : (load feed).result = .ok (.ok t)) :
    t.Validated := by
  unfold load at h
  split at h
  · cases h
  rename_i draft _
  rw [result_build_bind] at h
  cases hvalid : draft.validate with
  | error defect =>
    rw [hvalid] at h
    cases h
  | ok validated =>
    rw [hvalid] at h
    cases h
    exact ⟨draft, hvalid⟩

/-- A table that was read from the front of a text went through validation, too. -/
theorem validated_of_decode {text : List (Option Char)} (h : (decode text).result = .ok (.ok t)) :
    t.Validated := by
  unfold decode at h
  split at h
  · cases h
  split at h
  · cases h
  rename_i draft _
  rw [result_build_bind] at h
  split at h
  · cases h
  · rename_i validated hvalid
    split at h
    · cases h
      exact ⟨draft, hvalid⟩
    · cases h

/-- **Names and numbers of symbols are inverse to each other** in every validated table with no more
symbols than there are numbers, and so they are in every such table that is read from JSON. -/
theorem Validated.lookups_inverse (valid : t.Validated) (few : t.symbols.size ≤ UInt32.size) :
    t.NamesInverse ∧
    (∀ feed loaded, (load feed).result = .ok (.ok loaded) → loaded.symbols.size ≤ UInt32.size →
      loaded.NamesInverse) ∧
    ∀ text loaded, (decode text).result = .ok (.ok loaded) → loaded.symbols.size ≤ UInt32.size →
      loaded.NamesInverse := by
  refine ⟨valid.namesInverse few, ?_, ?_⟩
  · intro feed loaded hload hfew
    exact (validated_of_load hload).namesInverse hfew
  · intro text loaded hdecode hfew
    exact (validated_of_decode hdecode).namesInverse hfew

end Table

/-- An empty name and one that has to be escaped, both ways, and a number without a name. -/
theorem lookups_inverse_oddTable : oddTable.Validated ∧ oddTable.symbols.size ≤ UInt32.size ∧
    oddTable.symbolId? "" = some ⟨1⟩ ∧ oddTable.symbolId? "\x22\\\n\x01" = some ⟨0⟩ ∧
    oddTable.symbolName? ⟨2⟩ = none ∧ oddTable.symbolId? "WORD" = none := by
  have few : oddTable.symbols.size ≤ UInt32.size := by decide
  obtain ⟨⟨inverse, named, numbered⟩, _⟩ := oddTable_validated.lookups_inverse few
  refine ⟨oddTable_validated, few, (inverse _ _).2 rfl, (inverse _ _).2 rfl, ?_, ?_⟩
  · have hbehind : ¬(⟨2⟩ : SymbolId).index < oddTable.symbols.size := by decide
    simpa using (not_congr (numbered ⟨2⟩)).2 hbehind
  · have hforeign : ¬∃ symbol ∈ oddTable.symbols, symbol.name = "WORD" := by decide
    simpa using (not_congr (named "WORD")).2 hforeign

end Munch
