import Munch.Proofs.Stream.Step

/-!
# The default strategy

Unless a strategy is forced, a table without any rejectable symbol is scanned greedily. With a hook
that rejects flagged symbols only, nobody can tell.

* `Hook.HeedsFlags` — the hook never rejects a match whose symbol is not flagged.
  `Hook.Lenient` — it rejects no match of the table at all, which comes to the same if no symbol is
  flagged.
* `Matcher.tried_eq` — a scan with a lenient hook is the same with either strategy.
  `Step.withStrategy`, `Run.withStrategy` — so a stream can change its strategy in a run without
  changing the run.
* `Table.Validated.session_eq_backtracking` — a session with the default strategy shows what a
  backtracking session shows.
-/

namespace Munch

variable {η : Type} {t : Table}

/-- Whatever it has been called on, the hook does not reject a match whose symbol is not flagged. -/
def Hook.HeedsFlags (t : Table) (hook : Hook η) : Prop :=
  ∀ (before : List Invocation) (action : ActionId) (found : Match) (symbol : Symbol),
    t.symbols[found.symbol.index]? = some symbol → symbol.rejectable = false →
      ((hook.after before).invoke action found).1 = .accept

/-- Whatever it has been called on, the hook does not reject a match of the table. -/
def Hook.Lenient (t : Table) (hook : Hook η) : Prop :=
  ∀ (before : List Invocation) (action : ActionId) (found : Match),
    found.symbol.index < t.symbols.size → ((hook.after before).invoke action found).1 = .accept

theorem Hook.HeedsFlags.lenient {hook : Hook η} (h : hook.HeedsFlags t)
    (hnone : t.mayReject = false) : hook.Lenient t := by
  intro before action found hlt
  have hflag : t.symbols[found.symbol.index].rejectable = false := by
    have hall := Array.any_eq_false.1 hnone _ hlt
    simpa using hall
  exact h before action found _ (Array.getElem?_eq_getElem hlt) hflag

theorem Hook.Lenient.after {hook : Hook η} (h : hook.Lenient t) (calls : List Invocation) :
    (hook.after calls).Lenient t := by
  intro before action found hlt
  rw [← Hook.after_append]
  exact h (calls ++ before) action found hlt

/-- The stream with another strategy. -/
def TokenStream.withStrategy (s : TokenStream TextSource η) (strategy : Strategy) :
    TokenStream TextSource η :=
  { s with matcher := { s.matcher with strategy } }

/-- **With a lenient hook, a scan does not depend on the strategy.** -/
theorem Matcher.tried_eq (valid : t.Validated) {m : Matcher TextSource η}
    (ht : m.automaton = t.automaton) (lenient : m.hook.Lenient t) {state : StateId}
    (hs : state.index < t.rows.size) (strategy : Strategy) :
    tried { m with strategy } state = m.tried state ∧
      strategy.outcome (m.tried state) = m.strategy.outcome (m.tried state) := by
  have closed := (valid.ready ht).toClosed
  have hoffers : offers { m with strategy } state = m.offers state := rfl
  unfold tried
  rw [hoffers]
  cases hoffer : m.offers state with
  | nil => simp
  | cons o rest =>
    -- the first offer is a match of the table, and so it is accepted
    have hmem : o ∈ m.offers state := by rw [hoffer]; exact List.mem_cons_self
    obtain ⟨c, hc, rfl⟩ := List.mem_map.1 hmem
    obtain ⟨v, hv, hsymbol, _⟩ := mem_candidatesOf.1 hc
    rw [ht] at hsymbol
    have hstate := state_of_mem_entered closed hs hv
    have haccept := lenient [] (c.offer m.automaton.handle m.cursor).action
      (c.offer m.automaton.handle m.cursor).found (valid.accepted_lt hstate hsymbol)
    rw [Hook.replies_cons]
    rw [Strategy.asked_of_accept _ haccept, Strategy.asked_of_accept _ haccept]
    refine ⟨rfl, ?_⟩
    rw [Strategy.outcome_of_accept _ haccept, Strategy.outcome_of_accept _ haccept]

variable {s s' : TokenStream TextSource η} {calls : List Invocation}

theorem NextStep.withStrategy (valid : t.Validated) (ht : s.matcher.automaton = t.automaton)
    (lenient : s.matcher.hook.Lenient t) (strategy : Strategy) {item : Option (Yield Match)}
    (h : NextStep s calls item s') :
    NextStep (s.withStrategy strategy) calls item (s'.withStrategy strategy) := by
  have ready := valid.ready ht
  cases h with
  | idle hf => exact .idle hf
  | unknownMode hf hm => exact .unknownMode hf hm
  | @token state found hf hm ho =>
    obtain ⟨htried, houtcome⟩ := Matcher.tried_eq valid ht lenient (ready.start_mem hm) strategy
    rw [← houtcome, ← htried] at ho
    rw [← htried]
    exact .token hf hm ho
  | skipped hf hm ho hc =>
    obtain ⟨htried, houtcome⟩ := Matcher.tried_eq valid ht lenient (ready.start_mem hm) strategy
    rw [← houtcome, ← htried] at ho
    rw [← htried]
    exact .skipped hf hm ho hc
  | ended hf hm ho hc =>
    obtain ⟨htried, houtcome⟩ := Matcher.tried_eq valid ht lenient (ready.start_mem hm) strategy
    rw [← houtcome, ← htried] at ho
    rw [← htried]
    exact .ended hf hm ho hc

theorem Step.withStrategy (valid : t.Validated) (ht : s.matcher.automaton = t.automaton)
    (lenient : s.matcher.hook.Lenient t) (strategy : Strategy) {request : Request}
    (admitted : request.Admitted t.rows.size) {answer : Answer}
    (h : Step s request calls answer s') :
    Step (s.withStrategy strategy) request calls answer (s'.withStrategy strategy) := by
  cases h with
  | next h => exact .next (h.withStrategy valid ht lenient strategy)
  | setMode mode => exact .setMode mode
  | setOffset offset => exact .setOffset offset
  | position hp => exact .position hp
  | scan state =>
    obtain ⟨htried, houtcome⟩ := Matcher.tried_eq valid ht lenient admitted strategy
    rw [← houtcome, ← htried]
    exact .scan state
  | setCursor cursor => exact .setCursor cursor

/-- **With a lenient hook, a run does not depend on the strategy.** -/
theorem Run.withStrategy (valid : t.Validated) (strategy : Strategy) {requests : List Request}
    {observations : List Observation} (h : Run s requests observations s')
    (ht : s.matcher.automaton = t.automaton) (lenient : s.matcher.hook.Lenient t)
    (admitted : ∀ request ∈ requests, request.Admitted t.rows.size) :
    Run (s.withStrategy strategy) requests observations (s'.withStrategy strategy) := by
  induction h with
  | nil s => exact .nil _
  | @cons _ _ _ _ _ calls _ _ step _ ih =>
    have hstep := step.withStrategy valid ht lenient strategy (admitted _ List.mem_cons_self)
    have hlenient := lenient.after calls
    rw [← step.hook_eq] at hlenient
    have hrest := ih (step.sameSetting.automaton_eq.trans ht) hlenient
      (fun r hr => admitted r (List.mem_cons_of_mem _ hr))
    have hrun := Run.cons hstep hrest
    exact hrun

/-- **The default strategy is sound.** With a hook that rejects flagged symbols only, the default
strategy and backtracking give the same answers, leave cursor and mode in the same place after every
request, make the same hook calls and end with the same stream, up to the name of its strategy. -/
theorem Table.Validated.session_eq_backtracking (valid : t.Validated) {hook : Hook η}
    (heeds : hook.HeedsFlags t) (input : String) {requests : List Request}
    (admitted : ∀ request ∈ requests, request.Admitted t.rows.size) :
    ∃ observations final, t.session input hook none requests = .ok (observations, final) ∧
      t.session input hook (some .backtracking) requests =
        .ok (observations, final.withStrategy .backtracking) := by
  obtain ⟨observations, final, hsession, run⟩ := valid.session_run input hook none admitted
  refine ⟨observations, final, hsession, ?_⟩
  have hrun : Run (t.fresh input hook (some .backtracking)) requests observations
      (final.withStrategy .backtracking) := by
    cases hmay : t.mayReject with
    | false => exact run.withStrategy valid .backtracking rfl (heeds.lenient hmay) admitted
    | true =>
      -- the default is backtracking already
      have hfresh : t.fresh input hook none = t.fresh input hook (some .backtracking) := by
        simp [fresh, Strategy.select, hmay]
      have hfinal : final.withStrategy .backtracking = final := by
        have hstrategy := run.sameSetting.strategy_eq
        rw [hfresh] at hstrategy
        have hback : final.matcher.strategy = .backtracking := hstrategy
        rw [TokenStream.withStrategy, ← hback]
      rw [hfinal, ← hfresh]
      exact run
  exact hrun.serve_eq (valid.ready rfl) rfl admitted

/-- Counts its calls and accepts them all. -/
def countingHook : Hook Nat := ⟨0, fun n _ _ => (.accept, n + 1)⟩

theorem countingHook_heedsFlags (t : Table) : countingHook.HeedsFlags t := by
  intro before action found symbol _ _
  show ((countingHook.after before).react _ action found).1 = .accept
  rw [Hook.react_after]
  rfl

/-- The one session is greedy and the other is not. -/
theorem session_eq_backtracking_wordTable :
    let requests := [.next, .setMode 1, .next, .setMode 0, .next, .setOffset 1, .next, .next]
    (wordTable.fresh "ab é" countingHook none).matcher.strategy = .greedy ∧
      countingHook.HeedsFlags wordTable ∧
      (∀ request ∈ requests, request.Admitted wordTable.rows.size) ∧
      ∃ observations final,
        wordTable.session "ab é" countingHook none requests = .ok (observations, final) ∧
        wordTable.session "ab é" countingHook (some .backtracking) requests =
          .ok (observations, final.withStrategy .backtracking) := by
  intro requests
  have heeds := countingHook_heedsFlags wordTable
  have admitted : ∀ request ∈ requests, request.Admitted wordTable.rows.size := by decide
  have hgreedy : (wordTable.fresh "ab é" countingHook none).matcher.strategy = .greedy := by
    simp [Table.fresh, Strategy.select, Table.mayReject, wordTable, wordDraft]
  exact ⟨hgreedy, heeds, admitted,
    wordTable_validated.session_eq_backtracking heeds "ab é" admitted⟩

end Munch
