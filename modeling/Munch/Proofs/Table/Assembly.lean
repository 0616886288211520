import Munch.Proofs.Table.Normal
import Munch.Table.Builder

/-!
# Builder calls may be reordered

A builder is told about states, transitions, symbols and modes in any order, and a transition may
come before the state that it starts from.

* `statesOf`, `reachOf`, `rowOf` — what a list of calls says, read off the list.
* `Builder.Collects` — a builder holds what a list of calls says. `Builder.Collects.apply` — every
  call keeps this, and so does `Builder.run`.
* `Reorders` — the same calls in another order; only calls on one `Track` keep their order among
  themselves.
* `Draft.SameUpToOrder` — drafts that differ in the order of transitions only.
  `Draft.SameUpToOrder.validate` — they are validated to the same table, since the transitions of a
  table have one order only.
* `Builder.build_reordered` — reordered calls build the same table, and its states are those that
  the calls name.
-/

namespace Munch

/-! ## What calls say -/

namespace BuildCall

/-- The symbols that a call adds. -/
def symbolsAdded : BuildCall → List Symbol
  | .symbol added => [added]
  | .symbols names => names.map fun name => { name }
  | _ => []

/-- The states that a call adds, each by the symbols it accepts. -/
def statesAdded : BuildCall → List (List SymbolId)
  | .state accepting => [accepting]
  | _ => []

/-- The modes that a call adds. -/
def modesAdded : BuildCall → List Mode
  | .mode added => [added]
  | _ => []

/-- The states in which the transitions added by a call start. -/
def sources : BuildCall → List StateId
  | .edge source _ _ => [source]
  | .atEnd source _ => [source]
  | _ => []

/-- The transitions on characters that a call adds to the state at `index`. -/
def edgesFrom (index : Nat) : BuildCall → List Edge
  | .edge source range target => if source.index = index then [⟨range, target⟩] else []
  | _ => []

/-- The transitions on the end of the input that a call gives to the state at `index`. -/
def endsFrom (index : Nat) : BuildCall → List StateId
  | .atEnd source target => if source.index = index then [target] else []
  | _ => []

end BuildCall

/-- The states that calls add, each by the symbols it accepts. -/
def statesOf (calls : List BuildCall) : List (List SymbolId) :=
  calls.flatMap BuildCall.statesAdded

/-- One more than the largest state in which a transition starts; zero without transitions. -/
def reachOf (calls : List BuildCall) : Nat :=
  (calls.flatMap BuildCall.sources).foldr (fun source reach => max (source.index + 1) reach) 0

/-- What calls say about the state at `index`. Of several transitions on the end of the input the
last one counts. -/
def rowOf (calls : List BuildCall) (index : Nat) : Row where
  edges := (calls.flatMap (BuildCall.edgesFrom index)).toArray
  atEnd := (calls.flatMap (BuildCall.endsFrom index)).getLast?
  accepting := (statesOf calls)[index]?.getD []

theorem statesOf_append (calls later : List BuildCall) :
    statesOf (calls ++ later) = statesOf calls ++ statesOf later :=
  List.flatMap_append

theorem foldr_max_init (sources : List StateId) (reach : Nat) :
    sources.foldr (fun source reach => max (source.index + 1) reach) reach =
      max (sources.foldr (fun source reach => max (source.index + 1) reach) 0) reach := by
  induction sources with
  | nil => simp
  | cons source rest ih =>
    rw [List.foldr_cons, List.foldr_cons, ih]
    omega

theorem reachOf_append (calls later : List BuildCall) :
    reachOf (calls ++ later) = max (reachOf calls) (reachOf later) := by
  rw [reachOf, List.flatMap_append, List.foldr_append, foldr_max_init]
  rfl

/-- Adding a state does not renumber the others. -/
theorem getElem?_statesOf_concat {calls : List BuildCall} {call : BuildCall} {index : Nat}
    (h : (statesOf calls).length = index → call.statesAdded = []) :
    (statesOf (calls ++ [call]))[index]? = (statesOf calls)[index]? := by
  rw [statesOf_append, List.getElem?_append]
  split
  · rfl
  · rename_i hi
    have hnone : (statesOf calls)[index]? = none := List.getElem?_eq_none (Nat.le_of_not_lt hi)
    rw [hnone]
    cases call with
    | state accepting =>
      have hne : (statesOf calls).length ≠ index := fun heq => nomatch h heq
      refine List.getElem?_eq_none ?_
      show 1 ≤ index - (statesOf calls).length
      omega
    | _ => rfl

/-- A call that does not speak of a state leaves what has been said about it. -/
theorem rowOf_concat_of_silent {calls : List BuildCall} {call : BuildCall} {index : Nat}
    (hedges : call.edgesFrom index = []) (hends : call.endsFrom index = [])
    (hstates : (statesOf calls).length = index → call.statesAdded = []) :
    rowOf (calls ++ [call]) index = rowOf calls index := by
  simp [rowOf, hedges, hends, getElem?_statesOf_concat hstates]

/-! ## Builders hold what their calls say -/

namespace Builder

theorem size_reserve (rows : Array Row) (index : Nat) :
    (reserve rows index).size = max rows.size (index + 1) := by
  simp only [reserve, Array.size_append, Array.size_replicate]
  omega

/-- Placeholders are what is read behind the last row anyway. -/
theorem getD_reserve (rows : Array Row) (index i : Nat) :
    (reserve rows index).getD i {} = rows.getD i {} := by
  rw [Array.getD_eq_getD_getElem?, Array.getD_eq_getD_getElem?, reserve, Array.getElem?_append]
  split
  · rfl
  · rename_i hi
    have hnone : rows[i]? = none := Array.getElem?_eq_none (Nat.le_of_not_lt hi)
    rw [hnone, Array.getElem?_replicate]
    split
    · rfl
    · rfl

theorem size_updateRow (b : Builder) (index : Nat) (change : Row → Row) :
    (b.updateRow index change).draft.rows.size = max b.draft.rows.size (index + 1) := by
  rw [updateRow, Array.size_modify, size_reserve]

/-- Only the row at `index` is changed. -/
theorem getD_updateRow (b : Builder) (index : Nat) (change : Row → Row) (i : Nat) :
    (b.updateRow index change).draft.rows.getD i {} =
      if index = i then change (b.draft.rows.getD i {}) else b.draft.rows.getD i {} := by
  rw [updateRow, ← getD_reserve b.draft.rows index i, Array.getD_eq_getD_getElem?,
    Array.getD_eq_getD_getElem?, Array.getElem?_modify]
  split
  · have hlt : i < (reserve b.draft.rows index).size := by
      rw [size_reserve]
      omega
    rw [Array.getElem?_eq_getElem hlt]
    rfl
  · rfl

theorem symbols_apply (b : Builder) (call : BuildCall) :
    (b.apply call).draft.symbols.toList = b.draft.symbols.toList ++ call.symbolsAdded := by
  cases call with
  | symbol added => exact Array.toList_push
  | symbols names => simp [apply, BuildCall.symbolsAdded]
  | _ => exact (List.append_nil _).symm

theorem modes_apply (b : Builder) (call : BuildCall) :
    (b.apply call).draft.modes.toList = b.draft.modes.toList ++ call.modesAdded := by
  cases call with
  | mode added => exact Array.toList_push
  | _ => exact (List.append_nil _).symm

theorem added_apply (b : Builder) (call : BuildCall) :
    (b.apply call).added = b.added + call.statesAdded.length := by
  cases call <;> rfl

/-- The builder holds what the calls say. -/
structure Collects (b : Builder) (calls : List BuildCall) : Prop where
  symbols_eq : b.draft.symbols.toList = calls.flatMap BuildCall.symbolsAdded
  modes_eq : b.draft.modes.toList = calls.flatMap BuildCall.modesAdded
  added_eq : b.added = (statesOf calls).length
  size_eq : b.draft.rows.size = max (statesOf calls).length (reachOf calls)
  /-- Behind the last row nothing has been said. -/
  row_eq : ∀ i, b.draft.rows.getD i {} = rowOf calls i

theorem collects_nil : Collects {} [] := ⟨rfl, rfl, rfl, rfl, fun _ => rfl⟩

variable {b : Builder} {calls : List BuildCall}

theorem Collects.size_apply (h : b.Collects calls) (call : BuildCall) :
    (b.apply call).draft.rows.size =
      max (statesOf (calls ++ [call])).length (reachOf (calls ++ [call])) := by
  rw [statesOf_append, reachOf_append, List.length_append]
  have hsize := h.size_eq
  cases call with
  | state accepting =>
    show (b.updateRow b.added _).draft.rows.size = max (_ + 1) (max _ 0)
    rw [size_updateRow, h.added_eq]
    omega
  | edge source range target | atEnd source target =>
    show (b.updateRow source.index _).draft.rows.size =
      max (_ + 0) (max _ (max (source.index + 1) 0))
    rw [size_updateRow]
    omega
  | _ =>
    show b.draft.rows.size = max (_ + 0) (max _ 0)
    omega

theorem Collects.row_apply (h : b.Collects calls) (call : BuildCall) (i : Nat) :
    (b.apply call).draft.rows.getD i {} = rowOf (calls ++ [call]) i := by
  have hrow := h.row_eq i
  cases call with
  | state accepting =>
    show (b.updateRow b.added _).draft.rows.getD i {} = _
    rw [getD_updateRow, hrow, h.added_eq]
    split
    · -- the placeholder is completed, or a row is added behind the last one
      rename_i hi
      subst hi
      simp [rowOf, statesOf, BuildCall.edgesFrom, BuildCall.endsFrom, BuildCall.statesAdded]
    · rename_i hi
      exact (rowOf_concat_of_silent rfl rfl fun heq => absurd heq hi).symm
  | edge source range target =>
    show (b.updateRow source.index _).draft.rows.getD i {} = _
    rw [getD_updateRow, hrow]
    split
    · rename_i hi
      simp [rowOf, statesOf, BuildCall.edgesFrom, BuildCall.endsFrom, BuildCall.statesAdded, hi]
    · rename_i hi
      have hedges : BuildCall.edgesFrom i (.edge source range target) = [] := if_neg hi
      exact (rowOf_concat_of_silent hedges rfl fun _ => rfl).symm
  | atEnd source target =>
    show (b.updateRow source.index _).draft.rows.getD i {} = _
    rw [getD_updateRow, hrow]
    split
    · rename_i hi
      simp [rowOf, statesOf, BuildCall.edgesFrom, BuildCall.endsFrom, BuildCall.statesAdded, hi]
    · rename_i hi
      have hends : BuildCall.endsFrom i (.atEnd source target) = [] := if_neg hi
      exact (rowOf_concat_of_silent rfl hends fun _ => rfl).symm
  | _ => exact hrow.trans (rowOf_concat_of_silent rfl rfl fun _ => rfl).symm

/-- **Every call adds to the builder what it says.** -/
theorem Collects.apply (h : b.Collects calls) (call : BuildCall) :
    (b.apply call).Collects (calls ++ [call]) where
  symbols_eq := by simp [symbols_apply, h.symbols_eq]
  modes_eq := by simp [modes_apply, h.modes_eq]
  added_eq := by simp [added_apply, h.added_eq, statesOf]
  size_eq := h.size_apply call
  row_eq := h.row_apply call

theorem Collects.foldl (h : b.Collects calls) (later : List BuildCall) :
    (later.foldl Builder.apply b).Collects (calls ++ later) := by
  induction later generalizing b calls with
  | nil =>
    rw [List.append_nil]
    exact h
  | cons call rest ih =>
    have hrest := ih (h.apply call)
    rw [List.append_assoc] at hrest
    exact hrest

/-- **A builder holds what its calls say**, in whatever order they were made. -/
theorem collects_run (calls : List BuildCall) : (run calls).Collects calls :=
  collects_nil.foldl calls

end Builder

/-! ## Calls in another order -/

/-- What fixes the place of a call among others. -/
inductive Track where
  | symbols
  | states
  | modes
  | ends (source : StateId)
deriving DecidableEq, Repr

/-- The calls whose order matters to each other are on one track. Transitions on characters are on
none. -/
def BuildCall.track? : BuildCall → Option Track
  | .symbol _ | .symbols _ => some .symbols
  | .state _ => some .states
  | .edge .. => none
  | .atEnd source _ => some (.ends source)
  | .mode _ => some .modes

/-- The same calls in another order, except that calls on one track keep theirs. -/
structure Reorders (calls calls' : List BuildCall) : Prop where
  perm : calls.Perm calls'
  track : ∀ track, calls.filter (·.track? = some track) = calls'.filter (·.track? = some track)

theorem Reorders.symm {calls calls' : List BuildCall} (h : Reorders calls calls') :
    Reorders calls' calls :=
  ⟨h.perm.symm, fun track => (h.track track).symm⟩

/-- What only calls on one track say does not depend on the others. -/
theorem flatMap_track {α : Type} {f : BuildCall → List α} {track : Track}
    (h : ∀ call, f call = [] ∨ call.track? = some track) (calls : List BuildCall) :
    (calls.filter (·.track? = some track)).flatMap f = calls.flatMap f := by
  induction calls with
  | nil => rfl
  | cons call rest ih =>
    rw [List.filter_cons, List.flatMap_cons]
    split
    · rw [List.flatMap_cons, ih]
    · rename_i hoff
      have hsilent : f call = [] := (h call).resolve_right fun hon => hoff (decide_eq_true hon)
      rw [ih, hsilent, List.nil_append]

namespace Reorders

variable {calls calls' : List BuildCall}

theorem flatMap_eq {α : Type} {f : BuildCall → List α} (h : Reorders calls calls') (track : Track)
    (hf : ∀ call, f call = [] ∨ call.track? = some track) :
    calls'.flatMap f = calls.flatMap f := by
  rw [← flatMap_track hf calls, ← flatMap_track hf calls', h.track]

theorem symbolsAdded_eq (h : Reorders calls calls') :
    calls'.flatMap BuildCall.symbolsAdded = calls.flatMap BuildCall.symbolsAdded := by
  refine h.flatMap_eq .symbols ?_
  rintro (_ | _ | _ | _ | _ | _) <;> simp [BuildCall.symbolsAdded, BuildCall.track?]

theorem modesAdded_eq (h : Reorders calls calls') :
    calls'.flatMap BuildCall.modesAdded = calls.flatMap BuildCall.modesAdded := by
  refine h.flatMap_eq .modes ?_
  rintro (_ | _ | _ | _ | _ | _) <;> simp [BuildCall.modesAdded, BuildCall.track?]

theorem statesOf_eq (h : Reorders calls calls') : statesOf calls' = statesOf calls := by
  refine h.flatMap_eq .states ?_
  rintro (_ | _ | _ | _ | _ | _) <;> simp [BuildCall.statesAdded, BuildCall.track?]

theorem endsFrom_eq (h : Reorders calls calls') (index : Nat) :
    calls'.flatMap (BuildCall.endsFrom index) = calls.flatMap (BuildCall.endsFrom index) := by
  refine h.flatMap_eq (.ends (.ofIndex index)) ?_
  intro call
  cases call with
  | atEnd source target =>
    by_cases hi : source.index = index
    · right
      rw [← hi, Ident.ofIndex_index]
      rfl
    · exact Or.inl (if_neg hi)
  | _ => exact Or.inl rfl

theorem edgesFrom_perm (h : Reorders calls calls') (index : Nat) :
    (calls'.flatMap (BuildCall.edgesFrom index)).Perm (calls.flatMap (BuildCall.edgesFrom index)) :=
  h.perm.symm.flatMap_right _

theorem reachOf_eq (h : Reorders calls calls') : reachOf calls' = reachOf calls := by
  have hperm : (calls'.flatMap BuildCall.sources).Perm (calls.flatMap BuildCall.sources) :=
    h.perm.symm.flatMap_right _
  refine hperm.foldr_eq' ?_ 0
  intros
  omega

end Reorders

/-! ## Drafts up to the order of transitions -/

/-- The same row, with its transitions on characters in another order. -/
structure Row.SameUpToOrder (row row' : Row) : Prop where
  edges_perm : row'.edges.toList.Perm row.edges.toList
  atEnd_eq : row'.atEnd = row.atEnd
  accepting_eq : row'.accepting = row.accepting

/-- The same draft, with the transitions of every state in another order. -/
structure Draft.SameUpToOrder (d d' : Draft) : Prop where
  size_eq : d'.rows.size = d.rows.size
  row : ∀ i, (d.rows.getD i {}).SameUpToOrder (d'.rows.getD i {})
  symbols_eq : d'.symbols = d.symbols
  modes_eq : d'.modes = d.modes

/-- Disjoint edges have one order only. -/
theorem sortEdges_eq_of_perm {edges edges' : List Edge} (hperm : edges'.Perm edges)
    (hle : ∀ e ∈ edges, e.range.first ≤ e.range.last)
    (hdisjoint : edges.Pairwise fun a b => a.range.Disjoint b.range) :
    sortEdges edges' = sortEdges edges := by
  have hperm' : (sortEdges edges').Perm edges := (sortEdges_perm edges').trans hperm
  have hlt : ∀ sorted : List Edge, sorted.Perm edges →
      (sorted.Pairwise fun a b => a.range.first ≤ b.range.first) →
        sorted.Pairwise fun a b => a.range.last < b.range.first := by
    intro sorted hsorted hfirst
    refine (pairwise_disjoint_iff (fun e he => hle e (hsorted.mem_iff.1 he)) hfirst).1 ?_
    exact (hsorted.pairwise_iff fun h => h.symm).2 hdisjoint
  refine List.Perm.eq_of_pairwise ?_ (hlt _ hperm' (pairwise_sortEdges edges'))
    (hlt _ (sortEdges_perm edges) (pairwise_sortEdges edges))
    (hperm'.trans (sortEdges_perm edges).symm)
  -- no edge lies both before and behind another
  intro a b ha hb hab hba
  have hlast : a.range.last < b.range.last :=
    Std.lt_of_lt_of_le hab (hle b ((sortEdges_perm edges).mem_iff.1 hb))
  have hcycle : a.range.last < a.range.first := Std.lt_trans hlast hba
  exact absurd (hle a (hperm'.mem_iff.1 ha)) (Char.not_le.2 hcycle)

theorem Row.SameUpToOrder.normalize_eq {row row' : Row} {states symbols : Nat}
    (h : row.SameUpToOrder row') (wf : row.WellFormed states symbols) :
    row'.normalize = row.normalize := by
  have hle : ∀ e ∈ row.edges.toList, e.range.first ≤ e.range.last :=
    fun e he => wf.range_le e (Array.mem_toList_iff.1 he)
  rw [Row.normalize, Row.normalize, sortEdges_eq_of_perm h.edges_perm hle wf.disjoint, h.atEnd_eq,
    h.accepting_eq]

namespace Draft.SameUpToOrder

variable {d d' : Draft}

theorem normalize_eq (h : d.SameUpToOrder d') (wf : d.WellFormed) : d'.normalize = d.normalize := by
  have hrows : d'.rows.map Row.normalize = d.rows.map Row.normalize := by
    refine Array.ext (by rw [Array.size_map, Array.size_map, h.size_eq]) ?_
    intro i hi' hi
    rw [Array.size_map] at hi hi'
    have hrow := h.row i
    simp only [Array.getD_eq_getD_getElem?, Array.getElem?_eq_getElem hi,
      Array.getElem?_eq_getElem hi', Option.getD_some] at hrow
    rw [Array.getElem_map, Array.getElem_map]
    exact hrow.normalize_eq (wf.row _ (Array.getElem_mem hi))
  rw [Draft.normalize, Draft.normalize, hrows, h.symbols_eq, h.modes_eq]

/-- **Drafts that differ in the order of transitions are validated to the same table.** -/
theorem validate (h : d.SameUpToOrder d') {t : Table} (ht : d.validate = .ok t) :
    d'.validate = .ok t := by
  have wf := Draft.exists_validate_iff.1 ⟨t, ht⟩
  obtain ⟨hnone, hnames, hdraft⟩ := Draft.validate_eq_ok_iff.1 ht
  refine Draft.validate_eq_ok_iff.2 ⟨?_, ?_, ?_⟩
  · rw [h.normalize_eq wf]
    exact hnone
  · rw [h.symbols_eq]
    exact hnames
  · rw [h.normalize_eq wf]
    exact hdraft

end Draft.SameUpToOrder

/-! ## Building -/

theorem Draft.build_result (d : Draft) : d.build.result = .ok d.validate := by
  unfold Draft.build
  split
  · rename_i hd
    rw [hd]
    rfl
  · rename_i hd
    rw [hd]
    rfl

namespace Builder

variable {b b' : Builder} {calls calls' : List BuildCall}

theorem Collects.sameUpToOrder (h : b.Collects calls) (h' : b'.Collects calls')
    (reorders : Reorders calls calls') : b.draft.SameUpToOrder b'.draft where
  size_eq := by rw [h.size_eq, h'.size_eq, reorders.statesOf_eq, reorders.reachOf_eq]
  row i := by
    rw [h.row_eq, h'.row_eq]
    exact ⟨reorders.edgesFrom_perm i, by rw [rowOf, rowOf, reorders.endsFrom_eq],
      by rw [rowOf, rowOf, reorders.statesOf_eq]⟩
  symbols_eq := Array.toList_inj.1 (by rw [h.symbols_eq, h'.symbols_eq, reorders.symbolsAdded_eq])
  modes_eq := Array.toList_inj.1 (by rw [h.modes_eq, h'.modes_eq, reorders.modesAdded_eq])

theorem Collects.validate_reordered (h : b.Collects calls) (h' : b'.Collects calls')
    (reorders : Reorders calls calls') {t : Table} (ht : b.draft.validate = .ok t) :
    b'.draft.validate = .ok t :=
  (h.sameUpToOrder h' reorders).validate ht

/-- A table has the states of which its calls speak, each accepting what was said. -/
theorem Collects.states_of_validate (h : b.Collects calls) {t : Table}
    (ht : b.draft.validate = .ok t) :
    t.rows.size = max (statesOf calls).length (reachOf calls) ∧
      ∀ (i : Nat) (row : Row), t.rows[i]? = some row →
        ∀ x, x ∈ row.accepting ↔ x ∈ (statesOf calls)[i]?.getD [] := by
  have normal := Draft.normalFormOf_of_validate ht
  refine ⟨normal.rows_size.trans h.size_eq, ?_⟩
  intro i row hrow x
  have hi : i < b.draft.rows.size := by
    rw [← normal.rows_size]
    exact (Array.getElem?_eq_some_iff.1 hrow).1
  have hgiven := Array.getElem?_eq_getElem hi
  have hsaid : b.draft.rows[i] = rowOf calls i := by
    rw [← h.row_eq i, Array.getD_eq_getD_getElem?, hgiven]
    rfl
  rw [(normal.row i row _ hrow hgiven).mem_accepting, hsaid]
  rfl

/-- **Reordered calls build the same table.** Calls that agree in the order of the symbols, of the
states, of the modes and of the transitions on the end of the input from each state may otherwise
come in any order: one list builds a table if and only if the other does, and it is the same one.
Its states are those that were added and those up to the last one in which a transition starts. The
state added `i`-th has the number `i`; a state that was never added accepts nothing. -/
theorem build_reordered (reorders : Reorders calls calls') (t : Table) :
    ((run calls).build.result = .ok (.ok t) ↔ (run calls').build.result = .ok (.ok t)) ∧
      ((run calls).build.result = .ok (.ok t) →
        t.rows.size = max (statesOf calls).length (reachOf calls) ∧
        ∀ (i : Nat) (row : Row), t.rows[i]? = some row →
          ∀ x, x ∈ row.accepting ↔ x ∈ (statesOf calls)[i]?.getD []) := by
  have h := collects_run calls
  have h' := collects_run calls'
  simp only [build, Draft.build_result, Except.ok.injEq]
  refine ⟨⟨h.validate_reordered h' reorders, h'.validate_reordered h reorders.symm⟩, ?_⟩
  exact h.states_of_validate

end Builder

/-! ## Transitions before their states -/

/-- Everything about a state comes after it has been added. -/
def orderlyCalls : List BuildCall :=
  [.symbols ["DIGIT", "WORD"], .state [], .state [⟨1⟩, ⟨0⟩], .edge ⟨0⟩ ⟨'a', 'm'⟩ ⟨1⟩,
    .edge ⟨0⟩ ⟨'n', 'z'⟩ ⟨1⟩, .atEnd ⟨1⟩ ⟨0⟩, .atEnd ⟨1⟩ ⟨2⟩, .atEnd ⟨2⟩ ⟨2⟩,
    .mode ⟨"INITIAL", ⟨0⟩⟩]

/-- Transitions come first and in another order. -/
def hastyCalls : List BuildCall :=
  [.atEnd ⟨2⟩ ⟨2⟩, .edge ⟨0⟩ ⟨'n', 'z'⟩ ⟨1⟩, .atEnd ⟨1⟩ ⟨0⟩, .state [], .mode ⟨"INITIAL", ⟨0⟩⟩,
    .edge ⟨0⟩ ⟨'a', 'm'⟩ ⟨1⟩, .state [⟨1⟩, ⟨0⟩], .atEnd ⟨1⟩ ⟨2⟩, .symbols ["DIGIT", "WORD"]]

theorem orderlyCalls_reorders : Reorders orderlyCalls hastyCalls where
  perm := by decide
  track := by
    rintro (_ | _ | _ | source)
    · decide
    · decide
    · decide
    · by_cases h₁ : source = ⟨1⟩
      · subst h₁
        decide
      · by_cases h₂ : source = ⟨2⟩
        · subst h₂
          decide
        · simp [orderlyCalls, hastyCalls, BuildCall.track?, Ne.symm h₁, Ne.symm h₂]

theorem orderlyCalls_wellFormed : (Builder.run orderlyCalls).draft.WellFormed := by
  have hrows : (Builder.run orderlyCalls).draft.rows = #[
      { edges := #[⟨⟨'a', 'm'⟩, ⟨1⟩⟩, ⟨⟨'n', 'z'⟩, ⟨1⟩⟩] },
      { atEnd := some ⟨2⟩, accepting := [⟨1⟩, ⟨0⟩] },
      { atEnd := some ⟨2⟩ }] := by decide
  have hsymbols : (Builder.run orderlyCalls).draft.symbols = #[⟨"DIGIT", none, false⟩,
      ⟨"WORD", none, false⟩] :=
    Array.toList_inj.1 (Builder.collects_run orderlyCalls).symbols_eq
  have hdisjoint : CharRange.Disjoint ⟨'a', 'm'⟩ ⟨'n', 'z'⟩ := CharRange.disjoint_of_lt (by decide)
  refine ⟨by decide, ?_, by decide, ?_⟩
  · intro row hrow
    simp only [hrows, List.mem_toArray, List.mem_cons, List.not_mem_nil, or_false] at hrow
    rw [hrows, hsymbols]
    rcases hrow with rfl | rfl | rfl
    · exact ⟨by decide, by decide, by simp [hdisjoint], by decide, by decide⟩
    · exact ⟨by decide, by decide, by simp, by decide, by decide⟩
    · exact ⟨by decide, by decide, by simp, by decide, by decide⟩
  · rw [hsymbols]
    decide

/-- The third state is known from transitions only. -/
theorem build_hastyCalls :
    Reorders orderlyCalls hastyCalls ∧ ∃ t,
      (Builder.run orderlyCalls).build.result = .ok (.ok t) ∧
      (Builder.run hastyCalls).build.result = .ok (.ok t) ∧ t.rows.size = 3 ∧
      ∀ (i : Nat) (row : Row), t.rows[i]? = some row →
        ∀ x, x ∈ row.accepting ↔ x ∈ ([[], [⟨1⟩, ⟨0⟩]] : List (List SymbolId))[i]?.getD [] := by
  obtain ⟨t, ht⟩ := Draft.exists_validate_iff.2 orderlyCalls_wellFormed
  obtain ⟨hiff, hstates⟩ := Builder.build_reordered orderlyCalls_reorders t
  have hbuilt : (Builder.run orderlyCalls).build.result = .ok (.ok t) := by
    rw [Builder.build, Draft.build_result, ht]
  exact ⟨orderlyCalls_reorders, t, hbuilt, hiff.1 hbuilt, hstates hbuilt⟩

end Munch
