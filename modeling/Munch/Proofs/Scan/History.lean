import Munch.Matcher

/-!
# What a matcher keeps between scans

A matcher keeps its history when a scan is over, whatever became of the scan. The statements here
hold for every source and every hook, and of scans that run into a fault, too.

* `Matcher.offerEach_append` — offers can be made in parts. `Matcher.offerEach_withHistory` — making
  them neither depends on the history nor changes it.
* `Matcher.resolve_pop` — so one round of the resolution goes on with the history that it popped
  from, and `Matcher.resolve_eq` — the rounds come to offering the candidates of the history one
  after the other. In the end the history is empty.
* `Matcher.history_of_scanBacktracking` — so it is after every scan that tries all matches, and
  `Matcher.history_of_scan` — no scan leaves a record behind.
* `Matcher.scan_withHistory` — a scan does not depend on the history that it finds.
-/

namespace Munch.Matcher

variable {σ η : Type} [Source σ]

/-! ## Offers -/

/-- Making an offer neither depends on the history nor changes it. -/
theorem offer_withHistory (m : Matcher σ η) (history : History) (start : Nat) (c : Candidate) :
    (m.withHistory history).offer start c =
      (fun r => (r.1, r.2.1, r.2.2.withHistory history)) <$> m.offer start c := by
  unfold offer
  simp only [map_bind, map_pure]
  rfl

theorem offerEach_withHistory (m : Matcher σ η) (history : History) (start : Nat)
    (candidates : List Candidate) :
    offerEach start candidates (m.withHistory history) =
      (fun r => (r.1, r.2.withHistory history)) <$> offerEach start candidates m := by
  induction candidates generalizing m with
  | nil => simp only [offerEach, map_pure]
  | cons c rest ih =>
    simp only [offerEach, offer_withHistory, bind_map_left, map_bind]
    refine bind_congr fun r => ?_
    obtain ⟨found, verdict, m'⟩ := r
    cases verdict with
    | accept => simp only [map_pure]
    | reject => simp only [ih, map_bind]

/-- Offers can be made in parts, the later ones if the first are all rejected. -/
theorem offerEach_append (start : Nat) (first later : List Candidate) (m : Matcher σ η) :
    offerEach start (first ++ later) m = (do
      let (accepted, m) ← offerEach start first m
      match accepted with
      | some found => return (some found, m)
      | none => offerEach start later m) := by
  induction first generalizing m with
  | nil => simp only [List.nil_append, offerEach, pure_bind]
  | cons c rest ih =>
    simp only [List.cons_append, offerEach, bind_assoc]
    refine bind_congr fun r => ?_
    obtain ⟨found, verdict, m'⟩ := r
    cases verdict with
    | accept => simp only [pure_bind]
    | reject => simp only [ih, bind_assoc]

/-! ## Resolution -/

/-- One round of the resolution: a record is popped, and where all that it accepts is rejected, what
is left of the history is resolved. -/
theorem resolve_pop {start : Nat} {m : Matcher σ η} {top : Acceptance} {older : History}
    (hpop : m.history.pop? = some (top, older)) :
    m.resolve start = (do
      let (accepted, m) ← offerEach start top.candidates (m.withHistory older)
      match accepted with
      | some found => return (.emitted found, m.withHistory m.history.clear)
      | none => m.resolve start) := by
  rw [resolve_of_some hpop, offerEach_withHistory]
  simp only [bind_map_left]
  refine bind_congr fun r => ?_
  obtain ⟨accepted, m'⟩ := r
  cases accepted with
  | some found => rfl
  | none => rfl

/-- **The history is taken apart record by record, and its candidates are offered one after the
other.** Nothing is left of it in the end. -/
theorem resolve_eq (start : Nat) (m : Matcher σ η) :
    m.resolve start = (do
      let (accepted, m) ← offerEach start m.history.candidates m
      match accepted with
      | some found => return (.emitted found, m.withHistory {})
      | none =>
        Logged.emit (.exhausted start)
        return (.missed .rejected, m.withHistory {})) := by
  generalize hrecords : m.history.records = records
  induction records generalizing m with
  | nil =>
    have hhistory : m.history = {} := congrArg History.mk hrecords
    have hpop : m.history.pop? = none := by rw [hhistory]; rfl
    have hnone : m.history.candidates = [] := by rw [hhistory]; rfl
    have hself : m.withHistory {} = m := by rw [← hhistory]; rfl
    rw [resolve_of_none hpop, hnone]
    simp only [offerEach, pure_bind, hself]
  | cons top older ih =>
    have hhistory : m.history = ⟨top :: older⟩ := congrArg History.mk hrecords
    have hpop : m.history.pop? = some (top, ⟨older⟩) := by rw [hhistory]; rfl
    rw [resolve_pop hpop, History.candidates_pop? hpop, offerEach_append, offerEach_withHistory]
    simp only [bind_assoc, bind_map_left]
    refine bind_congr fun r => ?_
    obtain ⟨accepted, m'⟩ := r
    cases accepted with
    | some found =>
      simp only [pure_bind]
      rfl
    | none =>
      -- what is left of the history are the later records, and the induction is on these
      change resolve start (m'.withHistory ⟨older⟩) =
        (offerEach start (History.mk older).candidates m' >>= _)
      rw [ih (m'.withHistory ⟨older⟩) rfl, offerEach_withHistory, bind_map_left]
      rfl

/-! ## Scans -/

/-- A scan that commits to the longest match neither depends on the history nor changes it. -/
theorem scanGreedy_withHistory (m : Matcher σ η) (history : History) (state : StateId) :
    (m.withHistory history).scanGreedy state =
      (fun r => (r.1, r.2.withHistory history)) <$> m.scanGreedy state := by
  unfold scanGreedy
  simp only [map_bind]
  refine bind_congr fun r => ?_
  obtain ⟨latest, source⟩ := r
  cases latest with
  | none =>
    simp only [noMatch, map_bind, map_pure]
    rfl
  | some candidate =>
    have hoffer := offer_withHistory { m with source } history m.cursor candidate
    change (({ m with source }.withHistory history).offer m.cursor candidate >>= _) = _
    rw [hoffer, bind_map_left, map_bind]
    refine bind_congr fun r => ?_
    obtain ⟨found, verdict, m'⟩ := r
    cases verdict with
    | accept => rfl
    | reject => rfl

/-- A scan that tries every match starts from an empty history, whatever it finds. -/
theorem scanBacktracking_withHistory (m : Matcher σ η) (history : History) (state : StateId) :
    (m.withHistory history).scanBacktracking state = m.scanBacktracking state := rfl

/-- **A scan that tries every match leaves nothing in the history**, whether it emits a match, has
all of them rejected or finds none. -/
theorem history_of_scanBacktracking {m m' : Matcher σ η} {state : StateId} {outcome : Outcome}
    (h : (m.scanBacktracking state).result = .ok (outcome, m')) : m'.history = {} := by
  obtain ⟨⟨history, source⟩, _, h⟩ := Logged.bind_result_eq_ok.1 h
  dsimp only at h
  split at h
  · rename_i hempty
    obtain ⟨_, _, h⟩ := Logged.bind_result_eq_ok.1 h
    cases h
    exact congrArg History.mk (List.isEmpty_iff.1 hempty)
  · obtain ⟨_, _, h⟩ := Logged.bind_result_eq_ok.1 h
    rw [resolve_eq] at h
    obtain ⟨⟨accepted, m''⟩, _, h⟩ := Logged.bind_result_eq_ok.1 h
    cases accepted with
    | some found =>
      cases h
      rfl
    | none =>
      obtain ⟨_, _, h⟩ := Logged.bind_result_eq_ok.1 h
      cases h
      rfl

/-- So no scan leaves anything in a history that was empty before. -/
theorem history_of_scan {m m' : Matcher σ η} {state : StateId} {outcome : Outcome}
    (h : (m.scan state).result = .ok (outcome, m')) (idle : m.history = {}) : m'.history = {} := by
  unfold scan at h
  cases hstrategy : m.strategy with
  | greedy =>
    rw [hstrategy] at h
    have hkept : (m.scanGreedy state).result =
        (fun r => (r.1, r.2.withHistory m.history)) <$> (m.scanGreedy state).result := by
      rw [← Logged.result_map, ← scanGreedy_withHistory]
      rfl
    rw [h] at hkept
    have hself : m' = m'.withHistory m.history := congrArg Prod.snd (Except.ok.inj hkept)
    rw [hself]
    exact idle
  | backtracking =>
    rw [hstrategy] at h
    exact history_of_scanBacktracking h

/-- **A scan does not depend on the history that it finds.** -/
theorem scan_withHistory (m : Matcher σ η) (history : History) (state : StateId) :
    (fun r => (r.1, r.2.withHistory {})) <$> (m.withHistory history).scan state =
      (fun r => (r.1, r.2.withHistory {})) <$> m.scan state := by
  have hstrategy : (m.withHistory history).strategy = m.strategy := rfl
  unfold scan
  rw [hstrategy]
  cases m.strategy with
  | greedy =>
    dsimp only
    rw [scanGreedy_withHistory, Functor.map_map]
    rfl
  | backtracking => rfl

end Munch.Matcher
