import Munch.Proofs.Table.Lookup

/-!
# The error names the first defect

Validation sorts a row before it looks for defects and stops at the first one. What it reports is
said here of the draft as it was given.

* `overlap?_least` — the first edge, in order, that starts before its predecessor has ended starts
  at the smallest character that two edges cover.
* `Row.Defect` — what may be wrong with a row, each kind with the error that reports it and with the
  checks that come before it. `Row.defect_of_normalize` — the defect found in the sorted row is one
  of the given row.
* `Draft.FirstDefect` — the first defect of a draft: states before modes, modes before names, and
  within each of them the first that is bad.
* `Draft.validate_error_first` — the error of a draft that is refused is its first defect.
-/

namespace Munch

/-! ## Overlaps -/

/-- **The first overlap of neighbours is the smallest character that is covered twice.** -/
theorem overlap?_least {edges : List Edge} {e : Edge}
    (hle : ∀ x ∈ edges, x.range.first ≤ x.range.last)
    (hsorted : edges.Pairwise fun a b => a.range.first ≤ b.range.first)
    (h : overlap? edges = some e) :
    2 ≤ coverage edges e.range.first ∧ ∀ c, 2 ≤ coverage edges c → e.range.first ≤ c := by
  fun_induction overlap? edges with
  | case1 a b rest hab =>
    cases h
    obtain ⟨hfirst, hrest⟩ := List.pairwise_cons.1 hsorted
    refine ⟨?_, fun c hc => ?_⟩
    · have ha : a.range.contains e.range.first = true :=
        CharRange.contains_iff.2 ⟨hfirst e List.mem_cons_self, hab⟩
      have he : e.range.contains e.range.first = true :=
        CharRange.contains_iff.2 ⟨Char.le_refl _, hle e (by simp)⟩
      rw [coverage_cons, coverage_cons, if_pos ha, if_pos he]
      omega
    · -- one of the two edges is not the first, and it does not start before the second
      rw [coverage_cons] at hc
      have hpos : 0 < coverage (e :: rest) c := by
        split at hc <;> omega
      obtain ⟨x, hx, hxc⟩ := coverage_pos.1 hpos
      refine Char.le_trans ?_ (CharRange.contains_iff.1 hxc).1
      rcases List.mem_cons.1 hx with rfl | hx
      · exact Char.le_refl _
      · exact (List.pairwise_cons.1 hrest).1 x hx
  | case2 a b rest hab ih =>
    obtain ⟨_, hrest⟩ := List.pairwise_cons.1 hsorted
    obtain ⟨htwice, hleast⟩ := ih (fun x hx => hle x (List.mem_cons_of_mem _ hx)) hrest h
    refine ⟨?_, fun c hc => hleast c ?_⟩
    · rw [coverage_cons]
      omega
    · rw [coverage_cons] at hc
      split at hc
      · -- the first edge ends before all the others start
        rename_i hac
        have hlt : ∀ x ∈ b :: rest, a.range.last < x.range.first := by
          refine List.forall_mem_cons.2 ⟨Char.not_le.1 hab, fun x hx => ?_⟩
          exact Std.lt_of_lt_of_le (Char.not_le.1 hab) ((List.pairwise_cons.1 hrest).1 x hx)
        have hnone := coverage_eq_zero_of_lt hlt hac
        omega
      · exact hc
  | case3 => cases h

/-! ## One row -/

/-- Every edge has a range that is not inverted and leads to a state that is there. -/
def Row.EdgesSound (states : Nat) (row : Row) : Prop :=
  ∀ e ∈ row.edges, e.range.first ≤ e.range.last ∧ e.target.index < states

/-- No two edges, taken from different places, share a character. -/
def Row.EdgesDisjoint (row : Row) : Prop :=
  row.edges.toList.Pairwise fun a b => a.range.Disjoint b.range

/-- What may be wrong with the row at `index`, and how it is reported. -/
inductive Row.Defect (states symbols index : Nat) (row : Row) : TableError → Prop
  | range {e : Edge} (mem : e ∈ row.edges) (inverted : e.range.last < e.range.first) :
    Row.Defect states symbols index row (.invalidRange index e.range)
  | target {e : Edge} (mem : e ∈ row.edges) (missing : states ≤ e.target.index) :
    Row.Defect states symbols index row (.invalidState e.target.index (.state index))
  /-- Of the characters that two edges cover, the smallest is reported. -/
  | overlap {c : Char} (edges : row.EdgesSound states) (twice : 2 ≤ coverage row.edges.toList c)
    (least : ∀ c', 2 ≤ coverage row.edges.toList c' → c ≤ c') :
    Row.Defect states symbols index row (.overlappingTransitions index c)
  | atEnd {target : StateId} (edges : row.EdgesSound states) (disjoint : row.EdgesDisjoint)
    (given : row.atEnd = some target) (missing : states ≤ target.index) :
    Row.Defect states symbols index row (.invalidState target.index (.endOfInput index))
  /-- Of the accepted symbols that are missing, the smallest is reported. -/
  | symbol {x : SymbolId} (edges : row.EdgesSound states) (disjoint : row.EdgesDisjoint)
    (atEnd : ∀ target, row.atEnd = some target → target.index < states)
    (mem : x ∈ row.accepting) (missing : symbols ≤ x.index)
    (least : ∀ y ∈ row.accepting, symbols ≤ y.index → x.index ≤ y.index) :
    Row.Defect states symbols index row (.invalidSymbol x.index index)

variable {states symbols index : Nat} {row : Row} {err : TableError}

theorem stateDefect?_eq_some {referrer : Referrer} {target : StateId}
    (h : stateDefect? states referrer target = some err) :
    states ≤ target.index ∧ err = .invalidState target.index referrer := by
  unfold stateDefect? at h
  split at h
  · cases h
  · rename_i hmissing
    cases h
    exact ⟨Nat.not_lt.1 hmissing, rfl⟩

/-- The first missing symbol of an ascending list is the smallest. -/
theorem find?_missing {accepting : List SymbolId} {x : SymbolId}
    (h : accepting.Pairwise fun a b => a.index < b.index)
    (hx : accepting.find? (symbols ≤ ·.index) = some x) :
    x ∈ accepting ∧ symbols ≤ x.index ∧ ∀ y ∈ accepting, symbols ≤ y.index → x.index ≤ y.index := by
  obtain ⟨hmissing, before, after, rfl, hbefore⟩ := List.find?_eq_some_iff_append.1 hx
  refine ⟨by simp, of_decide_eq_true hmissing, fun y hy hle => ?_⟩
  rcases List.mem_append.1 hy with hy | hy
  · have := hbefore y hy
    simp [hle] at this
  · rcases List.mem_cons.1 hy with rfl | hy
    · exact Nat.le_refl _
    · have hafter := (List.pairwise_append.1 h).2.1
      exact Nat.le_of_lt ((List.pairwise_cons.1 hafter).1 y hy)

namespace Row

theorem defect_of_edge {e : Edge} (he : e ∈ row.edges)
    (h : edgeDefect? states index e = some err) : row.Defect states symbols index err := by
  unfold edgeDefect? at h
  split at h
  · rename_i hinverted
    cases h
    exact .range he (of_decide_eq_true hinverted)
  · obtain ⟨hmissing, rfl⟩ := stateDefect?_eq_some h
    exact .target he hmissing

theorem edgesSound_of_normalize
    (h : row.normalize.edges.toList.findSome? (edgeDefect? states index) = none) :
    row.EdgesSound states := by
  intro e he
  have hmem := Array.mem_toList_iff.2 (mem_edges_normalize.2 he)
  exact edgeDefect?_eq_none.1 (List.findSome?_eq_none_iff.1 h e hmem)

theorem EdgesSound.normalize_le (h : row.EdgesSound states) :
    ∀ e ∈ sortEdges row.edges.toList, e.range.first ≤ e.range.last := by
  intro e he
  exact (h e (mem_edges_normalize.1 (List.mem_toArray.2 he))).1

theorem EdgesSound.disjoint_of_normalize (hsound : row.EdgesSound states)
    (h : overlap? row.normalize.edges.toList = none) : row.EdgesDisjoint := by
  have happart := pairwise_of_overlap? hsound.normalize_le h
  have hsorted := happart.imp CharRange.disjoint_of_lt
  exact ((sortEdges_perm _).pairwise_iff fun h => h.symm).1 hsorted

/-- **A defect of the sorted row is a defect of the given row.** -/
theorem defect_of_normalize (h : row.normalize.defect? states symbols index = some err) :
    row.Defect states symbols index err := by
  unfold Row.defect? at h
  simp only [Option.orElse_eq_orElse, Option.orElse_eq_or, Option.or_eq_some_iff,
    Option.map_eq_some_iff] at h
  rcases h with hedge | ⟨hedges, h⟩
  · obtain ⟨e, he, hdefect⟩ := List.exists_of_findSome?_eq_some hedge
    exact defect_of_edge (mem_edges_normalize.1 (Array.mem_toList_iff.1 he)) hdefect
  have hsound := edgesSound_of_normalize hedges
  rcases h with ⟨e, he, rfl⟩ | ⟨happart, h⟩
  · obtain ⟨htwice, hleast⟩ := overlap?_least hsound.normalize_le (pairwise_sortEdges _) he
    simp only [coverage_perm (sortEdges_perm _)] at htwice hleast
    exact .overlap hsound htwice hleast
  have hdisjoint := hsound.disjoint_of_normalize (Option.map_eq_none_iff.1 happart)
  rcases h with hend | ⟨hended, x, hx, rfl⟩
  · obtain ⟨target, htarget, hdefect⟩ := Option.bind_eq_some_iff.1 hend
    obtain ⟨hmissing, rfl⟩ := stateDefect?_eq_some hdefect
    exact .atEnd hsound hdisjoint htarget hmissing
  · obtain ⟨hmem, hmissing, hleast⟩ := find?_missing (pairwise_sortSymbols _) hx
    refine .symbol hsound hdisjoint ?_ (mem_sortSymbols.1 hmem) hmissing ?_
    · intro target htarget
      exact stateDefect?_eq_none.1 (Option.bind_eq_none_iff.1 hended target htarget)
    · intro y hy
      exact hleast y (mem_sortSymbols.2 hy)

end Row

/-! ## The first that is bad -/

/-- The entry `x` at index `i` is bad, and no entry before it is. -/
structure IsFirst {α : Type} (bad : Nat → α → Prop) (xs : Array α) (i : Nat) (x : α) : Prop where
  get : xs[i]? = some x
  isBad : bad i x
  earlier : ∀ j y, j < i → xs[j]? = some y → ¬bad j y

theorem IsFirst.unique {α : Type} {bad : Nat → α → Prop} {xs : Array α} {i j : Nat} {x y : α}
    (hx : IsFirst bad xs i x) (hy : IsFirst bad xs j y) : i = j ∧ x = y := by
  have hij : i = j := by
    rcases Nat.lt_trichotomy i j with hlt | heq | hgt
    · exact absurd hx.isBad (hy.earlier i x hlt hx.get)
    · exact heq
    · exact absurd hy.isBad (hx.earlier j y hgt hy.get)
  subst hij
  exact ⟨rfl, Option.some.inj (hx.get.symm.trans hy.get)⟩

theorem getElem?_of_append {α : Type} {xs : Array α} {before later : List α}
    (h : xs.toList = before ++ later) {j : Nat} (hj : j < before.length) : xs[j]? = before[j]? := by
  rw [← Array.getElem?_toList, h, List.getElem?_append_left hj]

theorem isFirst_of_append {α : Type} {bad : Nat → α → Prop} {xs : Array α} {before after : List α}
    {x : α} (h : xs.toList = before ++ x :: after) (hx : bad before.length x)
    (hbefore : ∀ j y, before[j]? = some y → ¬bad j y) : IsFirst bad xs before.length x := by
  refine ⟨?_, hx, fun j y hj hy => hbefore j y ?_⟩
  · rw [← Array.getElem?_toList, h]
    simp
  · rw [← getElem?_of_append h hj]
    exact hy

/-- A row that is not well-formed. -/
def Draft.BadRow (d : Draft) (_ : Nat) (row : Row) : Prop :=
  ¬row.WellFormed d.rows.size d.symbols.size

/-- A mode that starts in a state that is not there. -/
def Draft.BadMode (d : Draft) (_ : Nat) (mode : Mode) : Prop := d.rows.size ≤ mode.start.index

/-- A symbol whose name is the name of an earlier one. -/
def Draft.BadName (d : Draft) (i : Nat) (symbol : Symbol) : Prop :=
  ∃ j earlier, j < i ∧ d.symbols[j]? = some earlier ∧ earlier.name = symbol.name

/-- The first defect of a draft, as it is given, and how it is reported. -/
inductive Draft.FirstDefect (d : Draft) : TableError → Prop
  | noStates (empty : d.rows = #[]) : d.FirstDefect .noStates
  /-- The first row that is not well-formed has the defect. -/
  | row {i : Nat} {row : Row} {err : TableError} (first : IsFirst d.BadRow d.rows i row)
    (defect : row.Defect d.rows.size d.symbols.size i err) : d.FirstDefect err
  | mode {i : Nat} {mode : Mode} (states : d.rows ≠ #[])
    (rows : ∀ row ∈ d.rows, row.WellFormed d.rows.size d.symbols.size)
    (first : IsFirst d.BadMode d.modes i mode) :
    d.FirstDefect (.invalidState mode.start.index (.mode mode.name))
  | name {i : Nat} {symbol : Symbol} (states : d.rows ≠ #[])
    (rows : ∀ row ∈ d.rows, row.WellFormed d.rows.size d.symbols.size)
    (modes : ∀ mode ∈ d.modes, mode.start.index < d.rows.size)
    (first : IsFirst d.BadName d.symbols i symbol) : d.FirstDefect (.duplicateSymbol symbol.name)

/-! ## Rows, modes and names in order -/

theorem rowsDefect?_eq_some {rows : List Row} :
    ∀ {index : Nat}, rowsDefect? states symbols index rows = some err →
      ∃ before row after, rows = before ++ row :: after ∧
        (∀ r ∈ before, r.Sound states symbols) ∧
        row.defect? states symbols (index + before.length) = some err := by
  induction rows with
  | nil => intro index h; cases h
  | cons row rest ih =>
    intro index h
    simp only [rowsDefect?, Option.orElse_eq_orElse, Option.orElse_eq_or,
      Option.or_eq_some_iff] at h
    rcases h with hfirst | ⟨hnone, hrest⟩
    · exact ⟨[], row, rest, rfl, by simp, hfirst⟩
    · obtain ⟨before, bad, after, rfl, hbefore, hdefect⟩ := ih hrest
      refine ⟨row :: before, bad, after, rfl, ?_, ?_⟩
      · exact List.forall_mem_cons.2 ⟨Row.defect?_eq_none_iff.1 hnone, hbefore⟩
      · rw [List.length_cons, Nat.add_comm before.length, ← Nat.add_assoc]
        exact hdefect

theorem indexNames_eq_error {names : List String} :
    ∀ {index : Nat} {known : Std.HashMap String SymbolId},
      indexNames index names known = .error err →
      ∃ before name after, names = before ++ name :: after ∧ err = .duplicateSymbol name ∧
        (name ∈ before ∨ name ∈ known) ∧ before.Nodup ∧ ∀ x ∈ before, x ∉ known := by
  induction names with
  | nil => intro index known h; cases h
  | cons name rest ih =>
    intro index known h
    rw [indexNames] at h
    split at h
    · rename_i hknown
      cases h
      exact ⟨[], name, rest, rfl, rfl, Or.inr (by simpa using hknown), .nil, by simp⟩
    · rename_i hnew
      obtain ⟨before, dup, after, rfl, rfl, hdup, hnodup, hfresh⟩ := ih h
      simp only [Std.HashMap.mem_insert, beq_iff_eq, not_or] at hdup hfresh
      refine ⟨name :: before, dup, after, rfl, rfl, ?_, ?_, ?_⟩
      · rcases hdup with hdup | rfl | hdup
        · exact Or.inl (List.mem_cons_of_mem _ hdup)
        · exact Or.inl List.mem_cons_self
        · exact Or.inr hdup
      · exact List.nodup_cons.2 ⟨fun hmem => (hfresh name hmem).1 rfl, hnodup⟩
      · refine List.forall_mem_cons.2 ⟨by simpa using hnew, fun x hx => (hfresh x hx).2⟩

namespace Draft

variable {d : Draft}

theorem validate_eq_error (h : d.validate = .error err) :
    d.normalize.defect? = some err ∨ d.normalize.defect? = none ∧
      indexNames 0 (d.symbols.toList.map (·.name)) ∅ = .error err := by
  have hsymbols : d.normalize.symbols = d.symbols := rfl
  unfold validate at h
  dsimp only at h
  rw [hsymbols] at h
  split at h
  · rename_i hdefect
    cases h
    exact Or.inl hdefect
  · rename_i hnone
    refine Or.inr ⟨hnone, ?_⟩
    cases hnames : indexNames 0 (d.symbols.toList.map (·.name)) ∅ with
    | ok names =>
      rw [hnames] at h
      cases h
    | error cause =>
      rw [hnames] at h
      cases h
      rfl

/-- The first bad row of the sorted draft is the first bad row of the given one. -/
theorem firstDefect_of_rows
    (h : rowsDefect? d.rows.size d.symbols.size 0 d.normalize.rows.toList = some err) :
    d.FirstDefect err := by
  obtain ⟨before, normal, after, hrows, hbefore, hdefect⟩ := rowsDefect?_eq_some h
  have hmap : d.normalize.rows.toList = d.rows.toList.map Row.normalize := Array.toList_map
  rw [hmap, List.map_eq_append_iff] at hrows
  obtain ⟨given, rest, hgiven, rfl, hrest⟩ := hrows
  obtain ⟨row, later, rfl, rfl, _⟩ := List.map_eq_cons_iff.1 hrest
  rw [Nat.zero_add, List.length_map] at hdefect
  refine .row (isFirst_of_append hgiven ?_ ?_) (Row.defect_of_normalize hdefect)
  · intro hwell
    rw [Row.defect?_eq_none_iff.2 (Row.sound_normalize_iff.2 hwell)] at hdefect
    cases hdefect
  · intro j r hr
    have hmem : r.normalize ∈ given.map Row.normalize :=
      List.mem_map_of_mem (List.mem_of_getElem? hr)
    exact not_not_intro (Row.sound_normalize_iff.1 (hbefore _ hmem))

/-- The mode that is supplied is never bad, so that the first bad mode was given. -/
theorem firstDefect_of_modes (states : d.rows ≠ #[])
    (rows : ∀ row ∈ d.rows, row.WellFormed d.rows.size d.symbols.size)
    (h : d.normalize.modes.toList.findSome? (Mode.defect? d.rows.size) = some err) :
    d.FirstDefect err := by
  obtain ⟨before, mode, after, hmodes, hdefect, hbefore⟩ := List.findSome?_eq_some_iff.1 h
  obtain ⟨hmissing, rfl⟩ := stateDefect?_eq_some hdefect
  by_cases hempty : d.modes = #[]
  · have hpos : 0 < d.rows.size := Array.size_pos_iff.2 states
    have hinitial : mode ∈ d.normalize.modes.toList := by simp [hmodes]
    rw [Draft.normalize, hempty] at hinitial
    obtain rfl : mode = .initial := by simpa using hinitial
    exact absurd hpos (Nat.not_lt.2 hmissing)
  · have hgiven : d.normalize.modes = d.modes := by simp [Draft.normalize, hempty]
    rw [hgiven] at hmodes
    refine .mode states rows (isFirst_of_append hmodes hmissing ?_)
    intro j m hm
    exact Nat.not_le.2 (stateDefect?_eq_none.1 (hbefore m (List.mem_of_getElem? hm)))

theorem firstDefect_of_names (states : d.rows ≠ #[])
    (rows : ∀ row ∈ d.rows, row.WellFormed d.rows.size d.symbols.size)
    (modes : ∀ mode ∈ d.modes, mode.start.index < d.rows.size)
    (h : indexNames 0 (d.symbols.toList.map (·.name)) ∅ = .error err) : d.FirstDefect err := by
  obtain ⟨before, name, after, hnames, rfl, hname, hnodup, _⟩ := indexNames_eq_error h
  obtain ⟨given, rest, hgiven, rfl, hrest⟩ := List.map_eq_append_iff.1 hnames
  obtain ⟨symbol, later, rfl, rfl, _⟩ := List.map_eq_cons_iff.1 hrest
  refine .name states rows modes (isFirst_of_append hgiven ?_ ?_)
  · have hmem : symbol.name ∈ given.map (·.name) := by simpa using hname
    obtain ⟨earlier, hearlier, hsame⟩ := List.mem_map.1 hmem
    obtain ⟨j, hj, rfl⟩ := List.getElem_of_mem hearlier
    refine ⟨j, given[j], hj, ?_, hsame⟩
    rw [getElem?_of_append hgiven hj, List.getElem?_eq_getElem hj]
  · rintro j y hy ⟨k, earlier, hkj, hk, hsame⟩
    obtain ⟨hj, rfl⟩ := List.getElem?_eq_some_iff.1 hy
    rw [getElem?_of_append hgiven (by omega)] at hk
    obtain ⟨hklt, rfl⟩ := List.getElem?_eq_some_iff.1 hk
    have hne := List.pairwise_iff_getElem.1 hnodup k j (by simpa using hklt) (by simpa using hj) hkj
    simp [hsame] at hne

theorem firstDefect_of_validate (h : d.validate = .error err) : d.FirstDefect err := by
  have hsize : d.normalize.rows.size = d.rows.size := Array.size_map
  rcases validate_eq_error h with hdefect | ⟨hnone, hnames⟩
  · unfold defect? at hdefect
    rw [hsize] at hdefect
    split at hdefect
    · rename_i hempty
      cases hdefect
      exact .noStates (by simpa [Draft.normalize] using hempty)
    rename_i hempty
    have states : d.rows ≠ #[] := by simpa [Draft.normalize] using hempty
    rw [Option.orElse_eq_orElse, Option.orElse_eq_or, Option.or_eq_some_iff] at hdefect
    rcases hdefect with hrow | ⟨hrows, hmode⟩
    · exact firstDefect_of_rows hrow
    · refine firstDefect_of_modes states ?_ hmode
      intro row hrow
      have hmem : row.normalize ∈ d.normalize.rows.toList := by
        simpa [Draft.normalize] using ⟨row, hrow, rfl⟩
      exact Row.sound_normalize_iff.1 (rowsDefect?_eq_none_iff.1 hrows _ hmem)
  · obtain ⟨hpos, rows, modes⟩ := defect?_normalize_eq_none_iff.1 hnone
    exact firstDefect_of_names (Array.size_pos_iff.1 hpos) rows modes hnames

/-- **The error of a draft that is refused is its first defect.** It says that there are no states
if and only if there are none. If some row is not well-formed, it reports a defect that the first
such row really has. -/
theorem validate_error_first (h : d.validate = .error err) :
    d.FirstDefect err ∧ (err = .noStates ↔ d.rows = #[]) ∧
      ∀ i row, IsFirst d.BadRow d.rows i row →
        row.Defect d.rows.size d.symbols.size i err := by
  have hfirst := firstDefect_of_validate h
  refine ⟨hfirst, ?_, ?_⟩
  · cases hfirst with
    | noStates hempty => exact ⟨fun _ => hempty, fun _ => rfl⟩
    | row first defect =>
      constructor
      · rintro rfl
        cases defect
      · intro hempty
        have hget := first.get
        rw [hempty] at hget
        cases hget
    | mode states => exact ⟨(fun h => nomatch h), fun hempty => absurd hempty states⟩
    | name states => exact ⟨(fun h => nomatch h), fun hempty => absurd hempty states⟩
  · intro i row hrow
    have hmem : row ∈ d.rows := Array.mem_of_getElem? hrow.get
    cases hfirst with
    | noStates hempty => simp [hempty] at hmem
    | row first defect =>
      obtain ⟨rfl, rfl⟩ := first.unique hrow
      exact defect
    | mode _ rows => exact absurd (rows row hmem) hrow.isBad
    | name _ rows => exact absurd (rows row hmem) hrow.isBad

end Draft

/-- Two pairs of edges that overlap, given out of order and among other defects: the same row
accepts symbols that are not there, the next one has an inverted range, the mode starts nowhere, and
a name is used twice. -/
def tangledDraft : Draft where
  rows := #[
    { edges := #[⟨⟨'a', 'z'⟩, ⟨1⟩⟩] },
    { edges := #[⟨⟨'p', 't'⟩, ⟨0⟩⟩, ⟨⟨'k', 'm'⟩, ⟨0⟩⟩, ⟨⟨'a', 'l'⟩, ⟨1⟩⟩, ⟨⟨'r', 's'⟩, ⟨0⟩⟩],
      accepting := [⟨9⟩, ⟨7⟩] },
    { edges := #[⟨⟨'z', 'a'⟩, ⟨0⟩⟩] }]
  symbols := #[{ name := "TWIN" }, { name := "TWIN" }]
  modes := #[⟨"FAR", ⟨8⟩⟩]

theorem validate_tangledDraft :
    tangledDraft.validate = .error (.overlappingTransitions 1 'k') ∧
      tangledDraft.FirstDefect (.overlappingTransitions 1 'k') ∧ tangledDraft.rows ≠ #[] := by
  have hrows : tangledDraft.normalize.rows = #[
      { edges := #[⟨⟨'a', 'z'⟩, ⟨1⟩⟩] },
      { edges := #[⟨⟨'a', 'l'⟩, ⟨1⟩⟩, ⟨⟨'k', 'm'⟩, ⟨0⟩⟩, ⟨⟨'p', 't'⟩, ⟨0⟩⟩, ⟨⟨'r', 's'⟩, ⟨0⟩⟩],
        accepting := [⟨7⟩, ⟨9⟩] },
      { edges := #[⟨⟨'z', 'a'⟩, ⟨0⟩⟩] }] := by
    simp [Draft.normalize, Row.normalize, sortEdges, sortSymbols, collapseRuns, List.mergeSort,
      List.MergeSort.Internal.splitInTwo, tangledDraft, Ident.index]
  have hdefect : tangledDraft.normalize.defect? = some (.overlappingTransitions 1 'k') := by
    rw [Draft.defect?, hrows]
    decide
  have h : tangledDraft.validate = .error (.overlappingTransitions 1 'k') := by
    simp [Draft.validate, hdefect]
  obtain ⟨hfirst, hstates, _⟩ := Draft.validate_error_first h
  refine ⟨h, hfirst, fun hempty => ?_⟩
  cases hstates.2 hempty

end Munch
