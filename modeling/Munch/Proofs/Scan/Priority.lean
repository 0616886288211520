import Munch.Proofs.Scan.Resolution
import Munch.Proofs.Table.Normal

/-!
# The order of the candidates

Candidates are to be tried longest match first and, at the same length, smallest symbol first.

A history is ordered that way record by record, but the end of the input is one more step: behind
the last character of the text the run may enter a second state at the same offset. What that state
accepts is offered first, whatever the symbols are.

* `Candidate.Before` — the order in which candidates are to be tried.
* `Matcher.OffersInOrder` — both scans follow it.
* `PrioritiesAgree` — where a run enters two states at one offset, the symbols of the later one come
  before those of the earlier one. `pairwise_candidatesOf_iff` — that is what the order of the
  candidates depends on.
* `Table.Validated.offersInOrder_iff` — so it is what the scans of a validated table depend on.
* `Table.Validated.prioritiesAgree` — it holds of every run if no end-of-input transition of the
  table leads to a symbol that its source has to try first.
* `offersOutOfOrder_echoTable` — it does not hold of every table.
-/

namespace Munch

/-- The longer match comes first and, at the same length, the smaller symbol. -/
def Candidate.Before (a b : Candidate) : Prop :=
  b.stop < a.stop ∨ a.stop = b.stop ∧ a.symbol.index < b.symbol.index

instance (a b : Candidate) : Decidable (a.Before b) := inferInstanceAs (Decidable (_ ∨ _))

/-- Of two states that a run enters at the same offset, the later one accepts smaller symbols. -/
def PrioritiesAgree (accepting : StateId → List SymbolId) (visits : List Visit) : Prop :=
  visits.Pairwise fun v w => v.offset = w.offset →
    ∀ x ∈ accepting v.state, ∀ y ∈ accepting w.state, y.index < x.index

instance (accepting : StateId → List SymbolId) (visits : List Visit) :
    Decidable (PrioritiesAgree accepting visits) :=
  inferInstanceAs (Decidable (List.Pairwise _ _))

/-- **A run offers its candidates in order if and only if its states agree on the priorities.** -/
theorem pairwise_candidatesOf_iff {accepting : StateId → List SymbolId} {visits : List Visit}
    (hforward : visits.Pairwise fun v w => v.offset ≤ w.offset)
    (hsorted : ∀ v ∈ visits, (accepting v.state).Pairwise fun x y => x.index < y.index) :
    (candidatesOf accepting visits).Pairwise Candidate.Before ↔
      PrioritiesAgree accepting visits := by
  have hone : ∀ v ∈ visits.reverse, (v.candidates accepting).Pairwise Candidate.Before := by
    intro v hv
    refine List.pairwise_map.2 ((hsorted v (List.mem_reverse.1 hv)).imp ?_)
    intro x y hxy
    exact Or.inr ⟨rfl, hxy⟩
  rw [candidatesOf, List.pairwise_flatMap, List.pairwise_reverse, and_iff_right hone]
  constructor
  · intro h
    refine h.imp ?_
    intro v w hvw hoffset x hx y hy
    have hbefore := hvw ⟨y, w.offset⟩ (List.mem_map.2 ⟨y, hy, rfl⟩) ⟨x, v.offset⟩
      (List.mem_map.2 ⟨x, hx, rfl⟩)
    rcases hbefore with hlt | ⟨_, hlt⟩
    · exact absurd hoffset (Nat.ne_of_lt hlt)
    · exact hlt
  · intro h
    refine (hforward.and h).imp ?_
    rintro v w ⟨hle, hagree⟩ c hc d hd
    obtain ⟨y, hy, rfl⟩ := List.mem_map.1 hc
    obtain ⟨x, hx, rfl⟩ := List.mem_map.1 hd
    by_cases hoffset : v.offset = w.offset
    · exact Or.inr ⟨hoffset.symm, hagree hoffset x hx y hy⟩
    · exact Or.inl (Nat.lt_of_le_of_ne hle hoffset)

/-- Only the end of the text leads to a state without leading on in the text. -/
theorem next_none_of_mem_entered {next : StateId → Option Char → Option StateId}
    {text : List Char} {state : StateId} {offset : Nat} {v : Visit}
    (hv : v ∈ entered next text state offset) (ho : v.offset = offset) :
    next state none = some v.state := by
  obtain ⟨a, b, rfl, hoffset, hempty⟩ := mem_entered hv
  have ha : a = [] := Text.width_eq_zero.1 (by omega)
  rw [ha, hempty ha, List.append_nil, entered] at hv
  split at hv
  · cases hv
  · rename_i target htarget
    obtain rfl := List.mem_singleton.1 hv
    exact htarget

/-! ## Scans -/

variable {η : Type}

/-- The scans of the text from `state` follow the order of the candidates. There is a list `order`
of everything that some state of the run accepts, in strict order; the backtracking scan offers it
to the hook up to the first that is not rejected, and the greedy scan emits its first element. -/
def Matcher.OffersInOrder (m : Matcher TextSource η) (state : StateId) : Prop :=
  let visits := entered m.automaton.next? m.source.place.behind state m.cursor
  ∃ order : List Candidate,
    (∀ c, c ∈ order ↔ ∃ v ∈ visits, c.symbol ∈ m.automaton.accepted v.state ∧ c.stop = v.offset) ∧
    order.Pairwise Candidate.Before ∧
    (m.scanBacktracking state).calls =
      untilAccepted (m.hook.replies (order.map (·.offer m.automaton.handle m.cursor))) ∧
    (m.scanGreedy state).result.toOption.map (·.1) =
      some (match order with
        | [] => .missed .noMatch
        | best :: _ => .emitted ⟨best.symbol, ⟨m.cursor, best.stop⟩⟩)

/-- The hook that rejects everything. -/
def Hook.rejectAll (state : η) : Hook η := ⟨state, fun s _ _ => (.reject, s)⟩

/-- A hook that rejects everything is offered everything. -/
theorem Hook.offered_rejectAll (state : η) (offers : List Offer) :
    (untilAccepted ((rejectAll state).replies offers)).map (·.offered) =
      offers.map (·.found) := by
  induction offers with
  | nil => rfl
  | cons o rest ih =>
    rw [replies_cons, untilAccepted_of_reject rfl, List.map_cons, List.map_cons]
    exact congrArg _ ih

theorem Candidate.found_offer_injective {action : SymbolId → ActionId} {start : Nat}
    {a b : Candidate} (h : (a.offer action start).found = (b.offer action start).found) :
    a = b := by
  obtain ⟨symbol, stop⟩ := a
  cases h
  rfl

namespace Matcher

variable {P : StateId → Prop} {m : Matcher TextSource η} {state : StateId}

/-- Scans follow the order if their candidates are in order. -/
theorem offersInOrder_of_pairwise (closed : m.automaton.Closed P) (hs : P state)
    (h : (m.candidates state).Pairwise Candidate.Before) : m.OffersInOrder state := by
  have hback := scanBacktracking_returns closed hs
  have hgreedy := scanGreedy_returns closed hs
  refine ⟨m.candidates state, fun c => mem_candidatesOf, h, hback.calls_eq, ?_⟩
  rw [hgreedy.result_eq]
  unfold offers
  cases m.candidates state with
  | nil => rfl
  | cons best rest => rfl

/-- A hook that rejects everything sees whether the candidates are in order. -/
theorem pairwise_of_offersInOrder (closed : m.automaton.Closed P) (hs : P state) {x : η}
    (h : OffersInOrder { m with hook := .rejectAll x } state) :
    (m.candidates state).Pairwise Candidate.Before := by
  obtain ⟨order, _, hordered, hcalls, _⟩ := h
  have hback := @scanBacktracking_returns η P { m with hook := .rejectAll x } state closed hs
  have hsame := congrArg (List.map (·.offered)) (hcalls.symm.trans hback.calls_eq)
  rw [Strategy.asked, Hook.offered_rejectAll, Hook.offered_rejectAll, offers, List.map_map,
    List.map_map] at hsame
  have horder : order = m.candidates state :=
    (List.map_inj_right fun _ _ => Candidate.found_offer_injective).1 hsame
  rwa [← horder]

end Matcher

namespace Table

variable {t : Table}

/-- A validated table keeps the symbols of every state in order. -/
theorem Validated.pairwise_accepted (valid : t.Validated) {state : StateId}
    (hs : state.index < t.rows.size) :
    (t.automaton.accepted state).Pairwise fun x y => x.index < y.index := by
  obtain ⟨d, hd⟩ := valid
  have normal := Draft.normalFormOf_of_validate hd
  have hrow : state.index < d.rows.size := normal.rows_size ▸ hs
  have hnormal := normal.row state.index _ _ (Array.getElem?_eq_getElem hs)
    (Array.getElem?_eq_getElem hrow)
  have hsymbols : t.automaton.accepted state = t.rows[state.index].accepting := by
    rw [Automaton.accepted, accepting_of_lt hs]
    rfl
  rw [hsymbols]
  exact hnormal.accepting_lt

/-- **The scans of a validated table offer in order, whatever the hook, if and only if the states of
the run agree on the priorities.** -/
theorem Validated.offersInOrder_iff (valid : t.Validated) (m : Matcher TextSource η)
    (ht : m.automaton = t.automaton) {state : StateId} (hs : state.index < t.rows.size) :
    (∀ hook : Hook η, Matcher.OffersInOrder { m with hook } state) ↔
      PrioritiesAgree t.automaton.accepted
        (entered t.automaton.next? m.source.place.behind state m.cursor) := by
  have closed : m.automaton.Closed fun state => state.index < t.rows.size := ht ▸ valid.closed
  have hsorted : ∀ v ∈ entered t.automaton.next? m.source.place.behind state m.cursor,
      (t.automaton.accepted v.state).Pairwise fun x y => x.index < y.index := by
    intro v hv
    exact valid.pairwise_accepted (state_of_mem_entered valid.closed hs hv)
  have hiff := pairwise_candidatesOf_iff (pairwise_entered ..) hsorted
  rw [← ht] at hiff ⊢
  constructor
  · intro h
    exact hiff.1 (Matcher.pairwise_of_offersInOrder closed hs (h (.rejectAll m.hook.state)))
  · intro h hook
    exact Matcher.offersInOrder_of_pairwise closed hs (hiff.2 h)

/-- Where the end of the input leads from one accepting state to another, the symbols of the latter
are the smaller ones. -/
def EndsFirst (t : Table) : Prop :=
  ∀ row ∈ t.rows, ∀ target, row.atEnd = some target →
    ∀ x ∈ row.accepting, ∀ y ∈ t.automaton.accepted target, y.index < x.index

/-- If the end of the input comes first in the table, the states of every run agree. -/
theorem Validated.prioritiesAgree (valid : t.Validated) (hfirst : t.EndsFirst) (text : List Char)
    {state : StateId} (hs : state.index < t.rows.size) (offset : Nat) :
    PrioritiesAgree t.automaton.accepted (entered t.automaton.next? text state offset) := by
  induction text generalizing state offset with
  | nil =>
    rw [entered]
    split
    · exact .nil
    · exact List.pairwise_singleton _ _
  | cons c rest ih =>
    rw [entered]
    split
    · exact .nil
    · rename_i target htarget
      have htarget := valid.closed.next?_mem hs htarget
      refine List.pairwise_cons.2 ⟨?_, ih htarget _⟩
      intro w hw hoffset x hx y hy
      -- the same offset again: the state behind it was entered on the end of the text
      have hend := next_none_of_mem_entered hw hoffset.symm
      rw [Automaton.next?, transition_of_lt htarget] at hend
      rw [Automaton.accepted, accepting_of_lt htarget] at hx
      exact hfirst _ (Array.getElem_mem htarget) w.state hend x hx y hy

end Table

/-! ## A letter and the end of the text -/

/-- A letter that is accepted as some symbols, and at the end of the text as others. -/
def echoTable (letter stop : List SymbolId) : Table where
  rows := #[
    { edges := #[⟨⟨'a', 'a'⟩, ⟨1⟩⟩] },
    { atEnd := some ⟨2⟩, accepting := letter },
    { accepting := stop }]
  symbols := #[{ name := "A" }, { name := "B" }]
  modes := #[.initial]
  names := ((∅ : Std.HashMap String SymbolId).insert "A" (.ofIndex 0)).insert "B" (.ofIndex 1)

theorem echoTable_validated {letter stop : List SymbolId}
    (hletter : letter.Pairwise fun x y => x.index < y.index)
    (hstop : stop.Pairwise fun x y => x.index < y.index)
    (hnone : (echoTable letter stop).toDraft.defect? = none) :
    (echoTable letter stop).Validated := by
  have hnormal : (echoTable letter stop).toDraft.normalize = (echoTable letter stop).toDraft := by
    simp [Draft.normalize, Row.normalize_of_pairwise, hletter, hstop, Table.toDraft, echoTable]
  have hnames : indexNames 0 ((echoTable letter stop).symbols.toList.map (·.name)) ∅ =
      .ok (echoTable letter stop).names := by
    simp [indexNames, echoTable]
  exact Table.validated_of_normal hnormal hnone hnames

/-- A scan of the text `a` with a hook that rejects everything. -/
def echoMatcher (letter stop : List SymbolId) : Matcher TextSource Unit where
  automaton := (echoTable letter stop).automaton
  source := .ofString "a"
  hook := .rejectAll ()
  strategy := .backtracking

/-- Two states accept at the same offset, the one at the end of the text the smaller symbol. -/
theorem offersInOrder_echoTable :
    (echoTable [⟨1⟩] [⟨0⟩]).Validated ∧
      ∀ hook : Hook Unit, Matcher.OffersInOrder { echoMatcher [⟨1⟩] [⟨0⟩] with hook } ⟨0⟩ := by
  have valid : (echoTable [⟨1⟩] [⟨0⟩]).Validated :=
    echoTable_validated (by decide) (by decide) (by decide)
  refine ⟨valid, (valid.offersInOrder_iff (echoMatcher [⟨1⟩] [⟨0⟩]) rfl (by decide)).2 ?_⟩
  have hfirst : (echoTable [⟨1⟩] [⟨0⟩]).EndsFirst := by
    simp +decide [Table.EndsFirst]
  exact valid.prioritiesAgree hfirst _ (by decide) _

/-- **Candidates may be offered out of order and twice.** The letter is accepted as 0 and as 1, and
at the end of the text as 1 once more: the larger symbol comes first and then again, and the greedy
scan emits it. -/
theorem offersOutOfOrder_echoTable :
    (echoTable [⟨0⟩, ⟨1⟩] [⟨1⟩]).Validated ∧
      ¬(echoMatcher [⟨0⟩, ⟨1⟩] [⟨1⟩]).OffersInOrder ⟨0⟩ ∧
      ((echoMatcher [⟨0⟩, ⟨1⟩] [⟨1⟩]).scanBacktracking ⟨0⟩).calls.map
          (fun call => (call.offered.symbol, call.offered.stop)) =
        [(⟨1⟩, 1), (⟨0⟩, 1), (⟨1⟩, 1)] ∧
      ((echoMatcher [⟨0⟩, ⟨1⟩] [⟨1⟩]).scanGreedy ⟨0⟩).result.toOption.map (·.1) =
        some (.emitted ⟨⟨1⟩, ⟨0, 1⟩⟩) := by
  have valid : (echoTable [⟨0⟩, ⟨1⟩] [⟨1⟩]).Validated :=
    echoTable_validated (by decide) (by decide) (by decide)
  have hcandidates : (echoMatcher [⟨0⟩, ⟨1⟩] [⟨1⟩]).candidates ⟨0⟩ =
      [⟨⟨1⟩, 1⟩, ⟨⟨0⟩, 1⟩, ⟨⟨1⟩, 1⟩] := by decide +kernel
  refine ⟨valid, ?_, by decide +kernel, by decide +kernel⟩
  intro h
  have hordered := Matcher.pairwise_of_offersInOrder
    (m := echoMatcher [⟨0⟩, ⟨1⟩] [⟨1⟩]) valid.closed (by decide) h
  rw [hcandidates] at hordered
  revert hordered
  decide

end Munch
