import Munch.Proofs.Scan.Reference
import Munch.Proofs.Source.Cursor

/-!
# The forward scan records the run

On a closed set of states the forward scan of a text is a fold over the accepting visits of the
run, whatever is recorded.

* `forward_eq_foldlM` — the fold. The scan reads too far, but it stays in its text.
* `forward_push` — the history of a run never refuses a record, and it offers the candidates of the
  run.
* `forward_recordLatest` — the greedy record is the first candidate of the run.
-/

namespace Munch

/-- What a visit hands to a recorder; nothing if its state accepts nothing. -/
def Visit.acceptance? (accepting : StateId → List SymbolId) (v : Visit) : Option Acceptance :=
  match accepting v.state with
  | [] => none
  | first :: others => some ⟨first, others, v.offset⟩

/-- What a run hands to a recorder. -/
def acceptancesOf (accepting : StateId → List SymbolId) (visits : List Visit) : List Acceptance :=
  visits.filterMap (Visit.acceptance? accepting)

theorem acceptancesOf_append (accepting : StateId → List SymbolId) (visits later : List Visit) :
    acceptancesOf accepting (visits ++ later) =
      acceptancesOf accepting visits ++ acceptancesOf accepting later :=
  List.filterMap_append

variable {a : Automaton} {P : StateId → Prop} {β : Type}

/-- Entering a state folds the recorder over what the visit accepts. -/
theorem enter_eq_foldlM (closed : a.Closed P) (record : β → Acceptance → Except Fault β)
    {state : StateId} (hs : P state) (offset : Nat) (b : β) :
    enter a record state offset b =
      (acceptancesOf a.accepted [⟨state, offset⟩]).foldlM record b := by
  unfold enter
  rw [closed.accepting_eq hs]
  cases h : a.accepted state with
  | nil =>
    have hnone : acceptancesOf a.accepted [⟨state, offset⟩] = [] := by
      simp [acceptancesOf, Visit.acceptance?, h]
    rw [hnone]
    rfl
  | cons first others =>
    have hone : acceptancesOf a.accepted [⟨state, offset⟩] = [⟨first, others, offset⟩] := by
      simp [acceptancesOf, Visit.acceptance?, h]
    rw [hone, List.foldlM_cons]
    exact (bind_pure _).symm

/-- **The forward scan is a fold over the accepting visits of the run.** -/
theorem forward_eq_foldlM (closed : a.Closed P) (record : β → Acceptance → Except Fault β)
    (text : List Char) :
    ∀ (source : TextSource) (state : StateId), source.place.behind = text → P state →
      ∃ source', source'.place.text = source.place.text ∧ ∀ b,
        forward a record state source b =
          (·, source') <$> (acceptancesOf a.accepted
            (entered a.next? text state source.place.offset)).foldlM record b := by
  induction text with
  | nil =>
    intro source state hb hs
    refine ⟨source, rfl, fun b => ?_⟩
    rw [forward_of_end (TextSource.read_nil hb), closed.transition_eq hs, entered]
    cases ht : a.next? state none with
    | none => rfl
    | some target =>
      have henter := enter_eq_foldlM closed record (closed.next?_mem hs ht)
        source.place.offset b
      show (do return (← enter a record target source.place.offset b, source)) = _
      rw [henter]
      rfl
  | cons c rest ih =>
    intro source state hb hs
    obtain ⟨source₁, hread, htext, hbehind, hoffset⟩ := TextSource.read_cons hb
    cases ht : a.next? state (some c) with
    | none =>
      -- the character is read all the same
      refine ⟨source₁, htext, fun b => ?_⟩
      rw [forward_of_char hread, closed.transition_eq hs, ht, entered, ht]
      rfl
    | some target =>
      have htarget := closed.next?_mem hs ht
      obtain ⟨source', htext', hfold⟩ := ih source₁ target hbehind htarget
      refine ⟨source', htext'.trans htext, fun b => ?_⟩
      rw [forward_of_char hread, closed.transition_eq hs, ht, entered, ht]
      have henter := enter_eq_foldlM closed record htarget source₁.place.offset b
      show (do forward a record target source₁ (← enter a record target source₁.place.offset b)) = _
      rw [henter, ← hoffset]
      show _ = (·, source') <$> (acceptancesOf a.accepted ([⟨target, source₁.place.offset⟩] ++
        entered a.next? rest target source₁.place.offset)).foldlM record b
      rw [acceptancesOf_append, List.foldlM_append, map_bind]
      congr 1
      funext b'
      exact hfold b'

/-! ## Histories -/

theorem pairwise_acceptancesOf {accepting : StateId → List SymbolId} {visits : List Visit}
    (h : visits.Pairwise fun v w => v.offset ≤ w.offset) :
    (acceptancesOf accepting visits).Pairwise fun x y => x.position ≤ y.position := by
  have hpos : ∀ v x, Visit.acceptance? accepting v = some x → x.position = v.offset := by
    intro v x hx
    unfold Visit.acceptance? at hx
    split at hx
    · cases hx
    · cases hx; rfl
  refine List.pairwise_filterMap.2 (h.imp ?_)
  intro v w hvw x hx y hy
  rw [hpos v x hx, hpos w y hy]
  exact hvw

/-- Records in the order of their positions are all taken; the latest ends up on top. -/
theorem foldlM_push (records : List Acceptance) :
    ∀ older : List Acceptance,
      (older.reverse ++ records).Pairwise (fun x y => x.position ≤ y.position) →
      records.foldlM History.push ⟨older⟩ = .ok ⟨records.reverse ++ older⟩ := by
  induction records with
  | nil => intro older _; rfl
  | cons x rest ih =>
    intro older hp
    have hpush : History.push ⟨older⟩ x = .ok ⟨x :: older⟩ := by
      cases older with
      | nil => rfl
      | cons top older =>
        have hle : top.position ≤ x.position :=
          (List.pairwise_append.1 hp).2.2 top (by simp) x List.mem_cons_self
        simp [History.push, hle]
    rw [List.foldlM_cons, hpush]
    show rest.foldlM History.push ⟨x :: older⟩ = _
    rw [ih (x :: older) (by simpa using hp)]
    simp

/-- The history of a run offers the candidates of the run. -/
theorem candidates_history (accepting : StateId → List SymbolId) (visits : List Visit) :
    (History.mk (acceptancesOf accepting visits).reverse).candidates =
      candidatesOf accepting visits := by
  have hone : ∀ v : Visit, ((v.acceptance? accepting).toList.flatMap Acceptance.candidates) =
      v.candidates accepting := by
    intro v
    unfold Visit.acceptance? Visit.candidates
    split <;> rename_i h <;> rw [h] <;> simp [Acceptance.candidates, Acceptance.symbols]
  unfold History.candidates candidatesOf acceptancesOf
  rw [← List.filterMap_reverse]
  induction visits.reverse with
  | nil => rfl
  | cons v rest ih =>
    rw [List.flatMap_cons, ← ih, ← hone v, List.filterMap_cons]
    split <;> rename_i h <;> simp [h]

theorem candidates_eq_nil {history : History} : history.candidates = [] ↔ history.records = [] := by
  obtain ⟨records⟩ := history
  cases records with
  | nil => simp [History.candidates]
  | cons x rest => simp [History.candidates, Acceptance.candidates, Acceptance.symbols]

/-- **The history of a scan offers the candidates of the run.** -/
theorem forward_push (closed : a.Closed P) (source : TextSource) {state : StateId} (hs : P state) :
    ∃ history source', forward a History.push state source {} = .ok (history, source') ∧
      source'.place.text = source.place.text ∧
      history.candidates = candidatesOf a.accepted
        (entered a.next? source.place.behind state source.place.offset) := by
  obtain ⟨source', htext, hfold⟩ := forward_eq_foldlM closed History.push _ source state rfl hs
  refine ⟨_, source', ?_, htext, candidates_history _ _⟩
  have hpush := foldlM_push (acceptancesOf a.accepted
    (entered a.next? source.place.behind state source.place.offset)) []
    (pairwise_acceptancesOf (pairwise_entered ..))
  rw [hfold, hpush, List.append_nil]
  rfl

/-! ## The latest record -/

/-- The latest record and its first symbol are the first candidate of the run. -/
theorem foldlM_recordLatest (accepting : StateId → List SymbolId) (visits : List Visit) :
    (acceptancesOf accepting visits).foldlM Matcher.recordLatest none =
      .ok (candidatesOf accepting visits).head? := by
  have hlast : ∀ (records : List Acceptance) (b : Option Candidate),
      records.foldlM Matcher.recordLatest b =
        .ok ((records.getLast?.map fun x => ⟨x.first, x.position⟩).or b) := by
    intro records
    induction records with
    | nil => intro b; rfl
    | cons x rest ih =>
      intro b
      rw [List.foldlM_cons]
      show rest.foldlM Matcher.recordLatest (some ⟨x.first, x.position⟩) = _
      rw [ih, List.getLast?_cons]
      cases rest.getLast? <;> rfl
  rw [hlast, ← candidates_history, ← List.head?_reverse]
  cases (acceptancesOf accepting visits).reverse with
  | nil => rfl
  | cons x rest => rfl

/-- **The greedy scan keeps the first candidate of the run.** -/
theorem forward_recordLatest (closed : a.Closed P) (source : TextSource) {state : StateId}
    (hs : P state) :
    ∃ source', forward a Matcher.recordLatest state source none =
        .ok ((candidatesOf a.accepted
          (entered a.next? source.place.behind state source.place.offset)).head?, source') ∧
      source'.place.text = source.place.text := by
  obtain ⟨source', htext, hfold⟩ :=
    forward_eq_foldlM closed Matcher.recordLatest _ source state rfl hs
  refine ⟨source', ?_, htext⟩
  rw [hfold, foldlM_recordLatest]
  rfl

end Munch
