import Munch.Proofs.Scan.Resolution

/-!
# The greedy scan commits to the first candidate

Both strategies run over the text in the same way; what differs is the record they keep of it. The
greedy scan overwrites one candidate, the backtracking scan keeps all of them.

* `exists_untilAccepted_cons` — the first offer is always made.
* `Matcher.scanGreedy_commits` — the one call of the greedy scan is the first call of the
  backtracking scan from the same situation, and its match is emitted whatever the hook answers.
-/

namespace Munch

theorem exists_untilAccepted_cons (call : Invocation) (rest : List Invocation) :
    ∃ later, untilAccepted (call :: rest) = call :: later := by
  rw [untilAccepted]
  split
  · exact ⟨_, rfl⟩
  · exact ⟨[], rfl⟩

namespace Matcher

variable {η : Type} {P : StateId → Prop} {m : Matcher TextSource η} {state : StateId}

/-- **The greedy scan commits to the first candidate of the backtracking scan.** The automaton may
be any whose queries do not fault on the states that can be reached; one of functions that never
fault is such for every state. Both scans return. Nothing matches for the one exactly if nothing
matches for the other; the matcher is then as it was and the hook has not been called. Otherwise the
greedy scan calls the hook once, as the backtracking scan calls it first, and emits the match with
the source at its end, whatever the answer. If the answer was no rejection, the backtracking scan
does the same; that it empties the history, which the greedy scan leaves alone, is all the
difference. -/
theorem scanGreedy_commits (closed : m.automaton.Closed P) (hs : P state) :
    ∃ outcome m₁ outcome' m₂,
      (m.scanGreedy state).result = .ok (outcome, m₁) ∧
      (m.scanBacktracking state).result = .ok (outcome', m₂) ∧
      (outcome = .missed .noMatch ↔ outcome' = .missed .noMatch) ∧
      (outcome = .missed .noMatch → (m.scanGreedy state).calls = [] ∧ m₁ = m) ∧
      (outcome ≠ .missed .noMatch → ∃ call later,
        (m.scanGreedy state).calls = [call] ∧
        (m.scanBacktracking state).calls = call :: later ∧
        outcome = .emitted call.offered ∧ m₁.cursor = call.offered.stop ∧
        m₁.hook = (m.hook.invoke call.action call.offered).2 ∧ m₁.history = m.history ∧
        (call.verdict = .accept → outcome' = outcome ∧ m₂ = m₁.withHistory {} ∧ later = [])) := by
  obtain ⟨hcalls, hresult⟩ := scanGreedy_returns closed hs
  obtain ⟨hcalls', hresult'⟩ := scanBacktracking_returns closed hs
  have hcursor := cursor_afterCalls_tried { m with strategy := .greedy } state
  change (m.afterCalls (Strategy.greedy.asked (m.hook.replies (m.offers state)))).cursor =
    restOf m.cursor (Strategy.greedy.asked (m.hook.replies (m.offers state))) at hcursor
  refine ⟨_, _, _, _, hresult, hresult', ?_⟩
  rw [hcalls, hcalls']
  cases hreplies : m.hook.replies (m.offers state) with
  | nil => simp
  | cons call rest =>
    rw [hreplies] at hcursor
    obtain ⟨later, hlater⟩ := exists_untilAccepted_cons call rest
    have hone : Strategy.greedy.asked (call :: rest) = [call] := rfl
    have hmany : Strategy.backtracking.asked (call :: rest) = call :: later := hlater
    have hemitted : Strategy.greedy.outcome [call] = .emitted call.offered := rfl
    rw [hone] at hcursor
    rw [hone, hmany, hemitted, Strategy.outcome_eq_noMatch_iff]
    refine ⟨by simp, (fun h => nomatch h), fun _ => ?_⟩
    refine ⟨call, later, rfl, rfl, rfl, hcursor, rfl, rfl, fun haccept => ?_⟩
    -- a first offer that is not rejected is the only one
    have hsame : call :: later = [call] := hlater ▸ untilAccepted_of_accept haccept rest
    rw [hsame, Strategy.outcome_of_accept _ haccept]
    exact ⟨rfl, rfl, (List.cons.inj hsame).2⟩

/-- The hook rejects what the greedy scan commits to. -/
theorem scanGreedy_lapMatcher :
    lapMatcher.automaton.Closed (fun _ => True) ∧ ∃ m₁ call later,
      (lapMatcher.scanGreedy ⟨0⟩).result = .ok (.emitted call.offered, m₁) ∧
      (lapMatcher.scanGreedy ⟨0⟩).calls = [call] ∧
      (lapMatcher.scanBacktracking ⟨0⟩).calls = call :: later ∧
      m₁.cursor = call.offered.stop ∧ call.offered = ⟨⟨3⟩, ⟨0, 2⟩⟩ ∧ call.verdict = .reject := by
  have closed := (Automaton.ofFunctions_computes lapTransition lapAccepting
    fun symbol => ⟨symbol.raw + 10⟩).closed
  have hrun : (lapMatcher.scanGreedy ⟨0⟩).result.toOption.map (·.1) =
      some (.emitted ⟨⟨3⟩, ⟨0, 2⟩⟩) := by decide +kernel
  have hverdicts : (lapMatcher.scanGreedy ⟨0⟩).calls.map (·.verdict) = [.reject] := by
    decide +kernel
  obtain ⟨outcome, m₁, _, _, hresult, _, _, _, hcommits⟩ :=
    @scanGreedy_commits _ _ lapMatcher ⟨0⟩ closed trivial
  rw [hresult] at hrun
  obtain rfl : outcome = .emitted ⟨⟨3⟩, ⟨0, 2⟩⟩ := Option.some.inj hrun
  obtain ⟨call, later, hcalls, hcalls', hfound, hcursor, _⟩ := hcommits (fun h => nomatch h)
  rw [hcalls] at hverdicts
  rw [hfound] at hresult
  exact ⟨closed, m₁, call, later, hresult, hcalls, hcalls', hcursor,
    (Outcome.emitted.inj hfound).symm, (List.cons.inj hverdicts).1⟩

end Matcher

end Munch
