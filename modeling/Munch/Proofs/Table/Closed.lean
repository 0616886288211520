import Munch.Proofs.Scan.Reference
import Munch.Table.Automaton
import Munch.Table.Validate

/-!
# Validated tables are closed

* `Table.Validated` — the table came out of validation.
* `Row.defect?_eq_none_iff`, `Draft.defect?_eq_none_iff` — what the absence of a defect says.
* `Table.Validated.sound` — every row, symbol and start state that a validated table refers to is
  there. `Table.Validated.closed` — so its automaton is closed on the states of the table, and no
  look-up by a scan can fault.
-/

namespace Munch

/-- A normalised row that refers to states and symbols below the given numbers only. -/
structure Row.Sound (states symbols : Nat) (row : Row) : Prop where
  range_le : ∀ e ∈ row.edges, e.range.first ≤ e.range.last
  target_lt : ∀ e ∈ row.edges, e.target.index < states
  apart : overlap? row.edges.toList = none
  atEnd_lt : ∀ target, row.atEnd = some target → target.index < states
  accepting_lt : ∀ x ∈ row.accepting, x.index < symbols

theorem stateDefect?_eq_none {states : Nat} {referrer : Referrer} {target : StateId} :
    stateDefect? states referrer target = none ↔ target.index < states := by
  unfold stateDefect?
  split
  · rename_i h; simp [h]
  · rename_i h; simp [h]

theorem edgeDefect?_eq_none {states index : Nat} {e : Edge} :
    edgeDefect? states index e = none ↔
      e.range.first ≤ e.range.last ∧ e.target.index < states := by
  unfold edgeDefect? CharRange.isInverted
  split
  · rename_i h
    have hlt : e.range.last < e.range.first := of_decide_eq_true h
    simp only [reduceCtorEq, false_iff, not_and]
    intro hle
    exact absurd hlt (Char.not_lt.2 hle)
  · rename_i h
    have hle : e.range.first ≤ e.range.last := Char.not_lt.1 (fun hlt => h (decide_eq_true hlt))
    rw [stateDefect?_eq_none]
    simp [hle]

theorem Row.defect?_eq_none_iff {states symbols index : Nat} {row : Row} :
    row.defect? states symbols index = none ↔ row.Sound states symbols := by
  unfold Row.defect?
  simp only [Option.orElse_eq_orElse, Option.orElse_eq_or, Option.or_eq_none_iff,
    List.findSome?_eq_none_iff, Option.map_eq_none_iff, Array.mem_toList_iff, edgeDefect?_eq_none,
    Option.bind_eq_none_iff, stateDefect?_eq_none, List.find?_eq_none, decide_eq_true_eq,
    Nat.not_le]
  constructor
  · rintro ⟨hedges, hapart, hend, haccept⟩
    exact ⟨fun e he => (hedges e he).1, fun e he => (hedges e he).2, hapart, hend, haccept⟩
  · rintro ⟨hrange, htarget, hapart, hend, haccept⟩
    exact ⟨fun e he => ⟨hrange e he, htarget e he⟩, hapart, hend, haccept⟩

theorem rowsDefect?_eq_none_iff {states symbols : Nat} {rows : List Row} :
    ∀ {index : Nat}, rowsDefect? states symbols index rows = none ↔
      ∀ row ∈ rows, row.Sound states symbols := by
  induction rows with
  | nil => simp [rowsDefect?]
  | cons row rest ih =>
    intro index
    simp only [rowsDefect?, Option.orElse_eq_orElse, Option.orElse_eq_or, Option.or_eq_none_iff,
      Row.defect?_eq_none_iff, ih, List.forall_mem_cons]

theorem Draft.defect?_eq_none_iff {d : Draft} :
    d.defect? = none ↔ 0 < d.rows.size ∧
      (∀ row ∈ d.rows, row.Sound d.rows.size d.symbols.size) ∧
      ∀ mode ∈ d.modes, mode.start.index < d.rows.size := by
  unfold Draft.defect?
  split
  · rename_i hempty
    have : d.rows.size = 0 := by simpa using hempty
    simp [this]
  · rename_i hempty
    have : 0 < d.rows.size := by
      have : d.rows.size ≠ 0 := by simpa using hempty
      omega
    simp only [Option.orElse_eq_orElse, Option.orElse_eq_or, Option.or_eq_none_iff,
      rowsDefect?_eq_none_iff, List.findSome?_eq_none_iff, Mode.defect?, stateDefect?_eq_none,
      Array.mem_toList_iff, this, true_and]

/-- A draft passes if its normal form has no defect and its names can be indexed. -/
theorem Draft.validate_eq_ok_iff {d : Draft} {t : Table} :
    d.validate = .ok t ↔ d.normalize.defect? = none ∧
      indexNames 0 (d.symbols.toList.map (·.name)) ∅ = .ok t.names ∧
      t.toDraft = d.normalize := by
  unfold Draft.validate
  dsimp only
  constructor
  · intro h
    split at h
    · cases h
    · rename_i hnone
      cases hnames : indexNames 0 (d.normalize.symbols.toList.map (·.name)) ∅ with
      | error e => rw [hnames] at h; cases h
      | ok names =>
        rw [hnames] at h
        cases h
        exact ⟨hnone, hnames, rfl⟩
  · rintro ⟨hnone, hnames, hdraft⟩
    obtain ⟨rows, symbols, modes, names⟩ := t
    have hsymbols : d.normalize.symbols = d.symbols := rfl
    rw [hnone, hsymbols, hnames, ← hdraft]
    cases hdraft
    rfl

namespace Table

/-- The table came out of the validation of some draft. -/
def Validated (t : Table) : Prop := ∃ d : Draft, d.validate = .ok t

variable {t : Table}

/-- **Everything that a validated table refers to is there.** -/
theorem Validated.sound (h : t.Validated) :
    (∀ row ∈ t.rows, row.Sound t.rows.size t.symbols.size) ∧
      ∀ mode ∈ t.modes, mode.start.index < t.rows.size := by
  obtain ⟨d, hd⟩ := h
  obtain ⟨hnone, _, hdraft⟩ := Draft.validate_eq_ok_iff.1 hd
  rw [← hdraft, Draft.defect?_eq_none_iff] at hnone
  exact hnone.2

end Table

/-- A row leads where one of its edges leads, or where the end of the input leads. -/
theorem Row.step_eq_some {row : Row} {input : Option Char} {target : StateId}
    (h : row.step input = some target) :
    (∃ e ∈ row.edges, e.target = target) ∨ row.atEnd = some target := by
  cases input with
  | none => exact Or.inr h
  | some c =>
    left
    change row.follow? c = some target at h
    unfold Row.follow? at h
    split at h
    · cases h
    · obtain ⟨e, he, hif⟩ := Option.bind_eq_some_iff.1 h
      split at hif
      · cases hif
        exact ⟨e, Array.mem_of_getElem? he, rfl⟩
      · cases hif

namespace Table

variable {t : Table}

theorem transition_of_lt {state : StateId} (h : state.index < t.rows.size) (input : Option Char) :
    t.automaton.transition state input = .ok (t.rows[state.index].step input) := by
  show (do return (← fetch t.rows state.index).step input) = _
  rw [fetch_of_lt h]
  rfl

theorem accepting_of_lt {state : StateId} (h : state.index < t.rows.size) :
    t.automaton.accepting state = .ok t.rows[state.index].accepting := by
  show (do return (← fetch t.rows state.index).accepting) = _
  rw [fetch_of_lt h]
  rfl

theorem action_of_lt {symbol : SymbolId} (h : symbol.index < t.symbols.size) :
    t.automaton.action symbol = .ok (t.symbols[symbol.index].action.getD ⟨symbol.raw⟩) := by
  show (do return (← fetch t.symbols symbol.index).action.getD ⟨symbol.raw⟩) = _
  rw [fetch_of_lt h]
  rfl

/-- **The automaton of a validated table is closed on the states of the table.** -/
theorem Validated.closed (h : t.Validated) :
    t.automaton.Closed fun state => state.index < t.rows.size := by
  have hsound := h.sound.1
  constructor
  · intro state input hs
    refine ⟨_, transition_of_lt hs input, ?_⟩
    intro target ht
    have hrow := hsound _ (Array.getElem_mem hs)
    rcases Row.step_eq_some ht with ⟨e, he, rfl⟩ | hend
    · exact hrow.target_lt e he
    · exact hrow.atEnd_lt target hend
  · intro state hs
    refine ⟨_, accepting_of_lt hs, ?_⟩
    intro x hx
    have hrow := hsound _ (Array.getElem_mem hs)
    exact ⟨_, action_of_lt (hrow.accepting_lt x hx)⟩

theorem Validated.accepted_lt (h : t.Validated) {state : StateId} (hs : state.index < t.rows.size)
    {x : SymbolId} (hx : x ∈ t.automaton.accepted state) : x.index < t.symbols.size := by
  have heq := (h.closed.accepting_eq hs).symm.trans (accepting_of_lt hs)
  rw [Except.ok.inj heq] at hx
  exact (h.sound.1 _ (Array.getElem_mem hs)).accepting_lt x hx

theorem Validated.startState_lt (h : t.Validated) {mode : Nat} {state : StateId}
    (hm : t.startState? mode = some state) : state.index < t.rows.size := by
  obtain ⟨m, hget, rfl⟩ := Option.map_eq_some_iff.1 hm
  exact h.sound.2 m (Array.mem_of_getElem? hget)

end Table

/-! ## A small table -/

/-- Words of small letters, and a symbol for the end of the input where no word has begun. -/
def wordDraft : Draft where
  rows := #[
    { edges := #[⟨⟨'a', 'z'⟩, ⟨1⟩⟩], atEnd := some ⟨2⟩ },
    { edges := #[⟨⟨'a', 'z'⟩, ⟨1⟩⟩], accepting := [⟨0⟩] },
    { accepting := [⟨1⟩] }]
  symbols := #[{ name := "WORD" }, { name := "STOP", action := some ⟨7⟩ }]

def wordTable : Table where
  rows := wordDraft.rows
  symbols := wordDraft.symbols
  modes := #[.initial]
  names := ((∅ : Std.HashMap String SymbolId).insert "WORD" (.ofIndex 0)).insert "STOP" (.ofIndex 1)

theorem wordTable_validated : wordTable.Validated := by
  have hdraft : wordDraft.normalize = wordTable.toDraft := by
    simp [Draft.normalize, Row.normalize, sortEdges, sortSymbols, collapseRuns, Table.toDraft,
      wordTable, wordDraft]
  have hnone : wordTable.toDraft.defect? = none := by decide
  have hnames : indexNames 0 (wordDraft.symbols.toList.map (·.name)) ∅ = .ok wordTable.names := by
    simp [indexNames, wordDraft, wordTable]
  rw [← hdraft] at hnone
  exact ⟨wordDraft, Draft.validate_eq_ok_iff.2 ⟨hnone, hnames, hdraft.symm⟩⟩

end Munch
