import Munch.Proofs.Table.Closed

/-!
# Validation accepts the well-formed drafts and normalises them

Validation sorts every row and then compares neighbours only.

* `Draft.WellFormed` — what a draft has to satisfy, said of its rows as they are given: in any order
  and with repeated symbols.
* `Row.sound_normalize_iff` — the checks on the sorted row decide it. As long as no range is
  inverted, `pairwise_of_overlap?` leads from neighbours to all pairs.
* `exists_indexNames_iff` — names can be indexed if and only if they are distinct.
* `Row.NormalFormOf`, `Table.NormalFormOf` — the same data in order, with nothing lost.
* `Table.Validated.validate_toDraft` — a table is its own normal form.
* `Draft.validate_iff_wellFormed` — validation accepts exactly the well-formed drafts, and what it
  returns is the normal form.
-/

namespace Munch

/-! ## Ranges -/

namespace CharRange

/-- Ranges without a common character. -/
def Disjoint (a b : CharRange) : Prop := ∀ c, ¬(a.contains c = true ∧ b.contains c = true)

variable {a b : CharRange}

theorem Disjoint.symm (h : a.Disjoint b) : b.Disjoint a := fun c hc => h c hc.symm

theorem disjoint_of_lt (h : a.last < b.first) : a.Disjoint b := by
  rintro c ⟨ha, hb⟩
  have hle := Char.le_trans (contains_iff.1 hb).1 (contains_iff.1 ha).2
  exact Char.not_lt.2 hle h

/-- Of two disjoint ranges, the one that starts first ends before the other starts. -/
theorem Disjoint.last_lt (h : a.Disjoint b) (hb : b.first ≤ b.last) (hab : a.first ≤ b.first) :
    a.last < b.first := by
  refine Char.not_le.1 fun hle => h b.first ⟨?_, ?_⟩
  · exact contains_iff.2 ⟨hab, hle⟩
  · exact contains_iff.2 ⟨Char.le_refl _, hb⟩

end CharRange

/-! ## Edges -/

theorem pairwise_mergeSort_of_total {α : Type} {r : α → α → Prop} [DecidableRel r]
    (trans : ∀ a b c, r a b → r b c → r a c) (total : ∀ a b, r a b ∨ r b a) (l : List α) :
    (l.mergeSort fun a b => decide (r a b)).Pairwise r := by
  have hsorted : (l.mergeSort fun a b => decide (r a b)).Pairwise fun a b =>
      decide (r a b) = true := by
    apply List.pairwise_mergeSort
    · intro a b c hab hbc
      exact decide_eq_true (trans a b c (of_decide_eq_true hab) (of_decide_eq_true hbc))
    · intro a b
      simpa using total a b
  exact hsorted.imp of_decide_eq_true

theorem sortEdges_perm (edges : List Edge) : (sortEdges edges).Perm edges :=
  List.mergeSort_perm ..

theorem pairwise_sortEdges (edges : List Edge) :
    (sortEdges edges).Pairwise fun a b => a.range.first ≤ b.range.first := by
  apply pairwise_mergeSort_of_total
  · intro a b c hab hbc
    exact Char.le_trans hab hbc
  · intro a b
    exact Char.le_total _ _

theorem sortEdges_of_pairwise {edges : List Edge}
    (h : edges.Pairwise fun a b => a.range.first ≤ b.range.first) : sortEdges edges = edges :=
  List.mergeSort_of_pairwise (h.imp decide_eq_true)

/-- If no edge starts before its predecessor has ended, none starts before any earlier one has. -/
theorem pairwise_of_overlap? {edges : List Edge}
    (hle : ∀ e ∈ edges, e.range.first ≤ e.range.last) (h : overlap? edges = none) :
    edges.Pairwise fun a b => a.range.last < b.range.first := by
  fun_induction overlap? edges with
  | case1 => cases h
  | case2 a b rest hnot ih =>
    have hrest := ih (fun e he => hle e (List.mem_cons_of_mem _ he)) h
    have hab : a.range.last < b.range.first := Char.not_le.1 hnot
    refine List.pairwise_cons.2 ⟨List.forall_mem_cons.2 ⟨hab, ?_⟩, hrest⟩
    -- the range in between is not inverted, so that it carries the order on
    intro e he
    have hb : b.range.first ≤ b.range.last := hle b (by simp)
    have hbe : b.range.last < e.range.first := (List.pairwise_cons.1 hrest).1 e he
    exact Std.lt_of_lt_of_le hab (Char.le_trans hb (Std.le_of_lt hbe))
  | case3 edges hshort =>
    match edges, hshort with
    | [], _ => exact .nil
    | [e], _ => exact List.pairwise_singleton _ _
    | a :: b :: rest, hshort => exact (hshort a b rest rfl).elim

theorem overlap?_eq_none {edges : List Edge}
    (h : edges.Pairwise fun a b => a.range.last < b.range.first) : overlap? edges = none := by
  fun_induction overlap? edges with
  | case1 a b rest hle =>
    have hlt : a.range.last < b.range.first := (List.pairwise_cons.1 h).1 b (by simp)
    exact absurd hle (Char.not_le.2 hlt)
  | case2 a b rest _ ih => exact ih (List.pairwise_cons.1 h).2
  | case3 => rfl

/-- Sorted edges are pairwise disjoint if and only if each ends before the next ones start. -/
theorem pairwise_disjoint_iff {edges : List Edge}
    (hle : ∀ e ∈ edges, e.range.first ≤ e.range.last)
    (hsorted : edges.Pairwise fun a b => a.range.first ≤ b.range.first) :
    (edges.Pairwise fun a b => a.range.Disjoint b.range) ↔
      edges.Pairwise fun a b => a.range.last < b.range.first := by
  constructor
  · intro h
    refine (h.and hsorted).imp_of_mem ?_
    rintro a b _ hb ⟨hdisjoint, hab⟩
    exact hdisjoint.last_lt (hle b hb) hab
  · intro h
    exact h.imp CharRange.disjoint_of_lt

/-! ## Symbols -/

theorem mem_collapseRuns {α : Type} [DecidableEq α] {x : α} {l : List α} :
    x ∈ collapseRuns l ↔ x ∈ l := by
  fun_induction collapseRuns l with
  | case1 => rfl
  | case2 => rfl
  | case3 b rest ih => simp [ih]
  | case4 a b rest _ ih => simp [ih]

theorem pairwise_collapseRuns {l : List SymbolId}
    (h : l.Pairwise fun a b => a.index ≤ b.index) :
    (collapseRuns l).Pairwise fun a b => a.index < b.index := by
  fun_induction collapseRuns l with
  | case1 => exact .nil
  | case2 => exact List.pairwise_singleton _ _
  | case3 b rest ih => exact ih (List.pairwise_cons.1 h).2
  | case4 a b rest hne ih =>
    obtain ⟨hhead, htail⟩ := List.pairwise_cons.1 h
    have hab : a.index < b.index := by
      have hle := hhead b (by simp)
      have hindex : a.index ≠ b.index := fun heq => hne (Ident.index_injective heq)
      omega
    refine List.pairwise_cons.2 ⟨?_, ih htail⟩
    intro x hx
    rcases List.mem_cons.1 (mem_collapseRuns.1 hx) with rfl | hx
    · exact hab
    · exact Nat.lt_of_lt_of_le hab ((List.pairwise_cons.1 htail).1 x hx)

theorem mem_sortSymbols {x : SymbolId} {l : List SymbolId} : x ∈ sortSymbols l ↔ x ∈ l := by
  rw [sortSymbols, mem_collapseRuns, List.mem_mergeSort]

theorem pairwise_sortSymbols (l : List SymbolId) :
    (sortSymbols l).Pairwise fun a b => a.index < b.index := by
  have hsorted : (l.mergeSort fun a b => a.index ≤ b.index).Pairwise fun a b =>
      a.index ≤ b.index := by
    apply pairwise_mergeSort_of_total
    · intro a b c hab hbc
      exact Nat.le_trans hab hbc
    · intro a b
      exact Nat.le_total _ _
  exact pairwise_collapseRuns hsorted

theorem collapseRuns_of_pairwise {l : List SymbolId}
    (h : l.Pairwise fun a b => a.index < b.index) : collapseRuns l = l := by
  fun_induction collapseRuns l with
  | case1 => rfl
  | case2 => rfl
  | case3 b rest => exact absurd ((List.pairwise_cons.1 h).1 b (by simp)) (Nat.lt_irrefl _)
  | case4 a b rest _ ih => rw [ih (List.pairwise_cons.1 h).2]

theorem sortSymbols_of_pairwise {l : List SymbolId}
    (h : l.Pairwise fun a b => a.index < b.index) : sortSymbols l = l := by
  have hsorted : (l.mergeSort fun a b => a.index ≤ b.index) = l :=
    List.mergeSort_of_pairwise (h.imp fun hab => decide_eq_true (Nat.le_of_lt hab))
  rw [sortSymbols, hsorted, collapseRuns_of_pairwise h]

/-! ## Names -/

theorem exists_indexNames_iff {names : List String} {index : Nat}
    {known : Std.HashMap String SymbolId} :
    (∃ indexed, indexNames index names known = .ok indexed) ↔
      names.Nodup ∧ ∀ name ∈ names, name ∉ known := by
  induction names generalizing index known with
  | nil => simp [indexNames]
  | cons name rest ih =>
    rw [indexNames]
    by_cases hname : name ∈ known
    · simp [hname]
    · have hnew : known.contains name = false := by simpa using hname
      rw [hnew, if_neg (by simp), ih]
      simp only [Std.HashMap.mem_insert, beq_iff_eq, not_or, List.nodup_cons, List.mem_cons,
        forall_eq_or_imp]
      constructor
      · rintro ⟨hnodup, hrest⟩
        exact ⟨⟨fun hmem => (hrest name hmem).1 rfl, hnodup⟩, hname, fun x hx => (hrest x hx).2⟩
      · rintro ⟨⟨hnot, hnodup⟩, _, hrest⟩
        exact ⟨hnodup, fun x hx => ⟨fun heq => hnot (heq ▸ hx), hrest x hx⟩⟩

/-! ## Well-formed drafts -/

/-- A row that refers to states and symbols below the given numbers only, and whose edges are
unambiguous. Neither edges nor symbols need be in order. -/
structure Row.WellFormed (states symbols : Nat) (row : Row) : Prop where
  range_le : ∀ e ∈ row.edges, e.range.first ≤ e.range.last
  target_lt : ∀ e ∈ row.edges, e.target.index < states
  /-- No two edges, taken from different places, share a character. -/
  disjoint : row.edges.toList.Pairwise fun a b => a.range.Disjoint b.range
  atEnd_lt : ∀ target, row.atEnd = some target → target.index < states
  accepting_lt : ∀ x ∈ row.accepting, x.index < symbols

/-- A draft that describes an automaton. -/
structure Draft.WellFormed (d : Draft) : Prop where
  rows_pos : 0 < d.rows.size
  row : ∀ row ∈ d.rows, row.WellFormed d.rows.size d.symbols.size
  start_lt : ∀ mode ∈ d.modes, mode.start.index < d.rows.size
  names_nodup : (d.symbols.toList.map (·.name)).Nodup

theorem Row.mem_edges_normalize {row : Row} {e : Edge} :
    e ∈ row.normalize.edges ↔ e ∈ row.edges := by
  simp only [Row.normalize, List.mem_toArray, (sortEdges_perm _).mem_iff, Array.mem_toList_iff]

/-- **The checks on the sorted row decide whether the row is well-formed.** -/
theorem Row.sound_normalize_iff {states symbols : Nat} {row : Row} :
    row.normalize.Sound states symbols ↔ row.WellFormed states symbols := by
  have hsorted := pairwise_sortEdges row.edges.toList
  have hpairs : (sortEdges row.edges.toList).Pairwise (fun a b => a.range.Disjoint b.range) ↔
      row.edges.toList.Pairwise fun a b => a.range.Disjoint b.range :=
    (sortEdges_perm _).pairwise_iff fun h => h.symm
  constructor
  · intro h
    have hle : ∀ e ∈ sortEdges row.edges.toList, e.range.first ≤ e.range.last := by
      intro e he
      exact h.range_le e (List.mem_toArray.2 he)
    refine ⟨?_, ?_, ?_, h.atEnd_lt, ?_⟩
    · exact fun e he => h.range_le e (mem_edges_normalize.2 he)
    · exact fun e he => h.target_lt e (mem_edges_normalize.2 he)
    · exact hpairs.1 ((pairwise_disjoint_iff hle hsorted).2 (pairwise_of_overlap? hle h.apart))
    · exact fun x hx => h.accepting_lt x (mem_sortSymbols.2 hx)
  · intro h
    have hle : ∀ e ∈ sortEdges row.edges.toList, e.range.first ≤ e.range.last := by
      intro e he
      exact h.range_le e (mem_edges_normalize.1 (List.mem_toArray.2 he))
    refine ⟨?_, ?_, ?_, h.atEnd_lt, ?_⟩
    · exact fun e he => h.range_le e (mem_edges_normalize.1 he)
    · exact fun e he => h.target_lt e (mem_edges_normalize.1 he)
    · exact overlap?_eq_none ((pairwise_disjoint_iff hle hsorted).1 (hpairs.2 h.disjoint))
    · exact fun x hx => h.accepting_lt x (mem_sortSymbols.1 hx)

/-- The mode that is supplied starts in the first state, and there is one. -/
theorem Draft.start_lt_normalize_iff {d : Draft} (hpos : 0 < d.rows.size) :
    (∀ mode ∈ d.normalize.modes, mode.start.index < d.rows.size) ↔
      ∀ mode ∈ d.modes, mode.start.index < d.rows.size := by
  rw [Draft.normalize]
  by_cases hempty : d.modes = #[]
  · simpa [hempty, Mode.initial, Ident.index] using hpos
  · simp [hempty]

theorem Draft.defect?_normalize_eq_none_iff {d : Draft} :
    d.normalize.defect? = none ↔ 0 < d.rows.size ∧
      (∀ row ∈ d.rows, row.WellFormed d.rows.size d.symbols.size) ∧
      ∀ mode ∈ d.modes, mode.start.index < d.rows.size := by
  have hsize : d.normalize.rows.size = d.rows.size := Array.size_map
  have hsymbols : d.normalize.symbols = d.symbols := rfl
  have hrows : (∀ row ∈ d.normalize.rows, row.Sound d.rows.size d.symbols.size) ↔
      ∀ row ∈ d.rows, row.WellFormed d.rows.size d.symbols.size := by
    simp [Draft.normalize, Row.sound_normalize_iff]
  rw [Draft.defect?_eq_none_iff, hsize, hsymbols, hrows]
  exact and_congr_right fun hpos => and_congr_right fun _ => start_lt_normalize_iff hpos

theorem Draft.exists_validate_iff {d : Draft} : (∃ t, d.validate = .ok t) ↔ d.WellFormed := by
  have hnames := @exists_indexNames_iff (d.symbols.toList.map (·.name)) 0 ∅
  simp only [Std.HashMap.not_mem_empty, not_false_eq_true, implies_true, and_true] at hnames
  constructor
  · rintro ⟨t, ht⟩
    obtain ⟨hnone, hindexed, _⟩ := Draft.validate_eq_ok_iff.1 ht
    obtain ⟨hpos, hrows, hmodes⟩ := Draft.defect?_normalize_eq_none_iff.1 hnone
    exact ⟨hpos, hrows, hmodes, hnames.1 ⟨t.names, hindexed⟩⟩
  · rintro ⟨hpos, hrows, hmodes, hnodup⟩
    obtain ⟨names, hindexed⟩ := hnames.2 hnodup
    have hnone := Draft.defect?_normalize_eq_none_iff.2 ⟨hpos, hrows, hmodes⟩
    let normal := d.normalize
    exact ⟨⟨normal.rows, normal.symbols, normal.modes, names⟩,
      Draft.validate_eq_ok_iff.2 ⟨hnone, hindexed, rfl⟩⟩

/-! ## Normal forms -/

/-- A row with the data of another one, in order. -/
structure Row.NormalFormOf (normal row : Row) : Prop where
  edges_perm : normal.edges.toList.Perm row.edges.toList
  /-- Every edge ends before the ones behind it start. -/
  edges_lt : normal.edges.toList.Pairwise fun a b => a.range.last < b.range.first
  accepting_lt : normal.accepting.Pairwise fun a b => a.index < b.index
  mem_accepting : ∀ x, x ∈ normal.accepting ↔ x ∈ row.accepting
  atEnd_eq : normal.atEnd = row.atEnd

/-- A table with the data of a draft, every row in order. -/
structure Table.NormalFormOf (t : Table) (d : Draft) : Prop where
  rows_size : t.rows.size = d.rows.size
  row : ∀ (i : Nat) (normal row : Row),
    t.rows[i]? = some normal → d.rows[i]? = some row → normal.NormalFormOf row
  symbols_eq : t.symbols = d.symbols
  modes_eq : d.modes ≠ #[] → t.modes = d.modes
  /-- Without any mode, one is supplied. -/
  modes_default : d.modes = #[] → t.modes = #[⟨"INITIAL", ⟨0⟩⟩]

theorem Row.WellFormed.normalFormOf {states symbols : Nat} {row : Row}
    (h : row.WellFormed states symbols) : row.normalize.NormalFormOf row where
  edges_perm := sortEdges_perm _
  edges_lt := by
    have hsound := Row.sound_normalize_iff.2 h
    exact pairwise_of_overlap? (fun e he => hsound.range_le e (List.mem_toArray.2 he)) hsound.apart
  accepting_lt := pairwise_sortSymbols _
  mem_accepting := fun _ => mem_sortSymbols
  atEnd_eq := rfl

theorem Draft.normalFormOf_of_validate {d : Draft} {t : Table} (h : d.validate = .ok t) :
    t.NormalFormOf d := by
  obtain ⟨hnone, _, hdraft⟩ := Draft.validate_eq_ok_iff.1 h
  obtain ⟨_, hrows, _⟩ := Draft.defect?_normalize_eq_none_iff.1 hnone
  have hrows_eq : t.rows = d.rows.map Row.normalize := congrArg Draft.rows hdraft
  have hmodes : t.modes = if d.modes.isEmpty then #[.initial] else d.modes :=
    congrArg Draft.modes hdraft
  refine ⟨?_, ?_, congrArg Draft.symbols hdraft, ?_, ?_⟩
  · rw [hrows_eq, Array.size_map]
  · intro i normal row hnormal hrow
    rw [hrows_eq, Array.getElem?_map, hrow] at hnormal
    cases hnormal
    exact (hrows row (Array.mem_of_getElem? hrow)).normalFormOf
  · intro hsome
    rw [hmodes, if_neg (by simpa using hsome)]
  · intro hempty
    rw [hmodes, if_pos (by simp [hempty])]
    rfl

/-! ## Tables are in normal form -/

/-- Rows in order are left as they are. -/
theorem Row.normalize_of_pairwise {row : Row}
    (hedges : row.edges.toList.Pairwise fun a b => a.range.first ≤ b.range.first)
    (haccepting : row.accepting.Pairwise fun a b => a.index < b.index) : row.normalize = row := by
  rw [Row.normalize, sortEdges_of_pairwise hedges, sortSymbols_of_pairwise haccepting,
    Array.toArray_toList]

theorem Row.normalize_normalize (row : Row) : row.normalize.normalize = row.normalize :=
  Row.normalize_of_pairwise (pairwise_sortEdges _) (pairwise_sortSymbols _)

theorem Draft.normalize_normalize (d : Draft) : d.normalize.normalize = d.normalize := by
  have hrows : d.normalize.rows.map Row.normalize = d.normalize.rows := by
    simp [Draft.normalize, Row.normalize_normalize]
  have hmodes : d.normalize.modes.isEmpty = false := by
    rw [Draft.normalize]
    by_cases hempty : d.modes = #[]
    · simp [hempty]
    · simp [hempty]
  rw [Draft.normalize, hrows, hmodes]
  rfl

/-- **Validating the data of a validated table gives the same table.** -/
theorem Table.Validated.validate_toDraft {t : Table} (valid : t.Validated) :
    t.toDraft.validate = .ok t := by
  obtain ⟨d, hd⟩ := valid
  obtain ⟨hnone, hnames, hdraft⟩ := Draft.validate_eq_ok_iff.1 hd
  have hnormal : t.toDraft.normalize = t.toDraft := by rw [hdraft, Draft.normalize_normalize]
  have hsymbols : t.toDraft.symbols = d.normalize.symbols := congrArg Draft.symbols hdraft
  refine Draft.validate_eq_ok_iff.2 ⟨?_, ?_, hnormal.symm⟩
  · rw [hnormal, hdraft]
    exact hnone
  · rw [hsymbols]
    exact hnames

/-- A table in normal form without a defect is validated. -/
theorem Table.validated_of_normal {t : Table} (hnormal : t.toDraft.normalize = t.toDraft)
    (hnone : t.toDraft.defect? = none)
    (hnames : indexNames 0 (t.symbols.toList.map (·.name)) ∅ = .ok t.names) : t.Validated := by
  rw [← hnormal] at hnone
  exact ⟨t.toDraft, Draft.validate_eq_ok_iff.2 ⟨hnone, hnames, hnormal.symm⟩⟩

/-! ## The contract of validation -/

/-- **Validation accepts exactly the well-formed drafts and normalises them without loss.** -/
theorem Draft.validate_iff_wellFormed (d : Draft) :
    ((∃ t, d.validate = .ok t) ↔ d.WellFormed) ∧ ∀ t, d.validate = .ok t → t.NormalFormOf d :=
  ⟨Draft.exists_validate_iff, fun _ => Draft.normalFormOf_of_validate⟩

/-- Two ranges out of order, a symbol given twice and no mode. -/
def jumbledDraft : Draft where
  rows := #[
    { edges := #[⟨⟨'n', 'z'⟩, ⟨1⟩⟩, ⟨⟨'a', 'm'⟩, ⟨0⟩⟩], accepting := [⟨1⟩, ⟨0⟩, ⟨1⟩] },
    { atEnd := some ⟨0⟩ }]
  symbols := #[{ name := "LATE" }, { name := "EARLY" }]

theorem jumbledDraft_wellFormed : jumbledDraft.WellFormed where
  rows_pos := by decide
  row := by
    intro row hrow
    have hdisjoint : CharRange.Disjoint ⟨'n', 'z'⟩ ⟨'a', 'm'⟩ :=
      (CharRange.disjoint_of_lt (by decide)).symm
    simp only [jumbledDraft, List.mem_toArray, List.mem_cons, List.not_mem_nil, or_false] at hrow
    rcases hrow with rfl | rfl
    · exact ⟨by decide, by decide, by simp [hdisjoint], by simp, by decide⟩
    · exact ⟨by decide, by decide, by simp, by decide, by decide⟩
  start_lt := by decide
  names_nodup := by decide

theorem validate_jumbledDraft :
    jumbledDraft.WellFormed ∧ ∃ t, jumbledDraft.validate = .ok t ∧ t.NormalFormOf jumbledDraft := by
  obtain ⟨haccepts, hnormal⟩ := Draft.validate_iff_wellFormed jumbledDraft
  obtain ⟨t, ht⟩ := haccepts.2 jumbledDraft_wellFormed
  exact ⟨jumbledDraft_wellFormed, t, ht, hnormal t ht⟩

end Munch
