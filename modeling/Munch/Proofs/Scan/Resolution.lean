import Munch.Proofs.Logged
import Munch.Proofs.Scan.Forward
import Munch.Proofs.Scan.History

/-!
# Scans agree with the reference

* `Matcher.offer_returns` — what one offer does, for a candidate that fits the text.
* `Matcher.offerEach_returns` — offering candidates one after the other makes the calls of
  `untilAccepted` and leaves hook and source where the last of them left them.
* `Matcher.resolve_returns` — so does resolving a history, which is empty in the end.
* `Matcher.scanBacktracking_returns` — the backtracking scan finds any history and leaves an empty
  one, whether it emits a match, has all of them rejected or finds none.
* `Matcher.scan_returns` — a scan of either strategy from a state of a closed set makes the calls
  `Matcher.tried` and ends as `Strategy.outcome` says.
* `Matcher.scanBacktracking_eq_reference` — the same for the backtracking scan of an automaton
  given by functions that never fault, spelled out.
-/

namespace Munch

open Logged

/-- A candidate that a scan from `start` may offer: it does not end before it starts, it ends
between two characters, and its symbol has an action. -/
structure Candidate.Fits (a : Automaton) (text : List Char) (start : Nat) (c : Candidate) :
    Prop where
  start_le : start ≤ c.stop
  boundary : Text.IsBoundary text c.stop
  action_eq : a.action c.symbol = .ok (a.handle c.symbol)

namespace Matcher

variable {η : Type}

/-- One offer moves the source to the end of the candidate and hands the hook on. -/
theorem offer_returns (m : Matcher TextSource η) {start : Nat} {c : Candidate}
    (h : c.Fits m.automaton m.source.place.text start) :
    let o := c.offer m.automaton.handle start
    let answer := m.hook.invoke o.action o.found
    (m.offer start c).Returns [⟨o.action, o.found, c.stop, answer.1⟩]
      (o.found, answer.1, { m with source := m.source.seek c.stop, hook := answer.2 }) := by
  have hcursor : (m.seek c.stop).cursor = c.stop :=
    TextSource.offset_seek_of_isBoundary h.boundary
  unfold offer
  refine Returns.lift_bind (Span.make_of_le h.start_le) ?_
  refine Returns.lift_bind h.action_eq ?_
  simp only [hcursor]
  exact Returns.invoked_bind (returns_pure _)

@[simp]
theorem text_afterCalls (m : Matcher TextSource η) (calls : List Invocation) :
    (m.afterCalls calls).source.place.text = m.source.place.text :=
  TextSource.text_seek ..

@[simp]
theorem afterCalls_nil (m : Matcher TextSource η) : m.afterCalls [] = m := by
  have hself : m.source.seek m.cursor = m.source := m.source.seek_self
  show { m with source := m.source.seek m.cursor } = m
  rw [hself]

/-- Once a match has been offered, it does not matter how far the source was read before. -/
theorem afterCalls_of_read (m : Matcher TextSource η) {source : TextSource}
    (ht : source.place.text = m.source.place.text) {calls : List Invocation} (h : calls ≠ []) :
    afterCalls { m with source } calls = m.afterCalls calls := by
  obtain ⟨call, later, rfl⟩ := List.exists_cons_of_ne_nil h
  simp only [afterCalls, restOf_cons, TextSource.seek_congr ht]

theorem match?_outcome_cons_reject {call : Invocation} {calls : List Invocation}
    (h : call.verdict = .reject) :
    (Strategy.backtracking.outcome (call :: calls)).match? =
      (Strategy.backtracking.outcome calls).match? := by
  cases calls with
  | nil => simp [Strategy.outcome, h, Outcome.match?]
  | cons next rest => rfl

/-- **Candidates are offered up to and including the first that is not rejected.** -/
theorem offerEach_returns (start : Nat) (candidates : List Candidate) :
    ∀ m : Matcher TextSource η,
      (∀ c ∈ candidates, c.Fits m.automaton m.source.place.text start) →
      let calls := untilAccepted
        (m.hook.replies (candidates.map (·.offer m.automaton.handle start)))
      (offerEach start candidates m).Returns calls
        ((Strategy.backtracking.outcome calls).match?, m.afterCalls calls) := by
  induction candidates with
  | nil =>
    intro m _
    refine Returns.of_eq (returns_pure _) rfl ?_
    simp [untilAccepted, Outcome.match?]
  | cons c rest ih =>
    intro m hfits
    have hfit := hfits c List.mem_cons_self
    have hoffer := m.offer_returns hfit
    rw [List.map_cons, Hook.replies_cons]
    rcases hans : m.hook.invoke (c.offer m.automaton.handle start).action
      (c.offer m.automaton.handle start).found with ⟨verdict, hook⟩
    simp only [hans] at hoffer ⊢
    cases verdict with
    | accept =>
      rw [untilAccepted_of_accept rfl]
      refine Returns.of_eq (hoffer.bind (returns_pure _)) rfl ?_
      simp [Strategy.outcome, Outcome.match?, afterCalls, hans]
    | reject =>
      -- the next candidate meets the hook and the source as this one left them
      let m₁ : Matcher TextSource η := { m with source := m.source.seek c.stop, hook }
      have hcursor : m₁.cursor = c.stop := TextSource.offset_seek_of_isBoundary hfit.boundary
      have hrest := ih m₁ (fun d hd => by
        have := hfits d (List.mem_cons_of_mem _ hd)
        rwa [← TextSource.text_seek m.source c.stop] at this)
      rw [untilAccepted_of_reject rfl]
      refine Returns.of_eq (hoffer.bind (Returns.emit_bind rfl hrest)) rfl ?_
      rw [match?_outcome_cons_reject rfl]
      simp only [afterCalls, hcursor, Hook.after_cons, hans, restOf_cons, Candidate.offer_stop, m₁,
        TextSource.seek_seek]

/-- **Resolving a history offers its candidates** up to and including the first that is not
rejected, and empties it. -/
theorem resolve_returns (start : Nat) (m : Matcher TextSource η)
    (hfits : ∀ c ∈ m.history.candidates, c.Fits m.automaton m.source.place.text start)
    {calls : List Invocation} (hsome : calls ≠ [])
    (hcalls : untilAccepted
      (m.hook.replies (m.history.candidates.map (·.offer m.automaton.handle start))) = calls) :
    (m.resolve start).Returns calls
      (Strategy.backtracking.outcome calls, (m.afterCalls calls).withHistory {}) := by
  have hoffers := offerEach_returns start _ m hfits
  simp only [hcalls] at hoffers
  rw [resolve_eq]
  cases houtcome : Strategy.backtracking.outcome calls with
  | emitted found =>
    rw [houtcome] at hoffers
    exact Returns.of_eq (hoffers.bind (returns_pure _)) (List.append_nil _) rfl
  | missed why =>
    rw [houtcome] at hoffers
    have hwhy : why = .rejected := by
      cases why with
      | noMatch => exact absurd (Strategy.outcome_eq_noMatch_iff.1 houtcome) hsome
      | rejected => rfl
    subst hwhy
    exact Returns.of_eq (hoffers.bind (Returns.emit_bind rfl (returns_pure _)))
      (List.append_nil _) rfl

theorem noMatch_returns (m : Matcher TextSource η) {source : TextSource}
    (ht : source.place.text = m.source.place.text) :
    (noMatch { m with source } m.cursor).Returns [] (.missed .noMatch, m.afterCalls []) := by
  have hback : source.seek m.cursor = m.source.seek m.cursor := TextSource.seek_congr ht _
  refine Returns.of_eq (Returns.emit_bind rfl (returns_pure _)) rfl ?_
  show (_, { m with source := source.seek m.cursor }) = _
  rw [hback]
  rfl

variable {P : StateId → Prop} {m : Matcher TextSource η} {state : StateId}

theorem fits_of_mem_candidates (closed : m.automaton.Closed P) (hs : P state) {c : Candidate}
    (hc : c ∈ m.candidates state) : c.Fits m.automaton m.source.place.text m.cursor := by
  obtain ⟨v, hv, hsym, hstop⟩ := mem_candidatesOf.1 hc
  obtain ⟨x, y, htext, hoffset, _⟩ := mem_entered hv
  refine ⟨by omega, ?_, closed.action_eq (state_of_mem_entered closed hs hv) hsym⟩
  refine Text.isBoundary_iff.2 ⟨m.source.place.before.reverse ++ x, y, ?_, ?_⟩
  · rw [Place.text, htext, List.append_assoc]
  · rw [Text.width_append, Text.width_reverse, ← m.source.place.offset_eq, hstop, hoffset]
    rfl

/-- The greedy scan offers the first candidate, if there is one. -/
theorem scanGreedy_returns (closed : m.automaton.Closed P) (hs : P state) :
    let calls := Strategy.greedy.asked (m.hook.replies (m.offers state))
    (m.scanGreedy state).Returns calls
      (Strategy.greedy.outcome calls, m.afterCalls calls) := by
  obtain ⟨source, hrecord, htext⟩ := forward_recordLatest closed m.source hs
  change _ = Except.ok ((m.candidates state).head?, source) at hrecord
  have hfits := fun c => fits_of_mem_candidates closed hs (c := c)
  unfold scanGreedy offers
  refine Returns.lift_bind hrecord ?_
  generalize m.candidates state = candidates at hfits ⊢
  cases candidates with
  | nil =>
    exact m.noMatch_returns htext
  | cons c rest =>
    have hfit := hfits c List.mem_cons_self
    rw [← htext] at hfit
    have hoffer := offer_returns { m with source } hfit
    have hseek : source.seek c.stop = m.source.seek c.stop := TextSource.seek_congr htext _
    rw [List.map_cons, Hook.replies_cons]
    rcases hans : m.hook.invoke (c.offer m.automaton.handle m.cursor).action
      (c.offer m.automaton.handle m.cursor).found with ⟨verdict, hook⟩
    simp only [hans, hseek] at hoffer ⊢
    -- a rejection is reported and otherwise ignored
    cases verdict with
    | accept =>
      refine Returns.of_eq (hoffer.bind (returns_pure _)) rfl ?_
      simp [Strategy.asked, Strategy.outcome, afterCalls, hans]
    | reject =>
      refine Returns.of_eq (hoffer.bind (Returns.emit_bind rfl (returns_pure _))) rfl ?_
      simp [Strategy.asked, Strategy.outcome, afterCalls, hans]

/-- The backtracking scan offers the candidates until one is not rejected. Whatever history it
found, it leaves an empty one. -/
theorem scanBacktracking_returns (closed : m.automaton.Closed P) (hs : P state) :
    let calls := Strategy.backtracking.asked (m.hook.replies (m.offers state))
    (m.scanBacktracking state).Returns calls
      (Strategy.backtracking.outcome calls, (m.afterCalls calls).withHistory {}) := by
  obtain ⟨history, source, hrecord, htext, hcandidates⟩ := forward_push closed m.source hs
  change _ = m.candidates state at hcandidates
  have hfits : ∀ c ∈ history.candidates, c.Fits m.automaton source.place.text m.cursor := by
    intro c hc
    rw [htext]
    rw [hcandidates] at hc
    exact fits_of_mem_candidates closed hs hc
  unfold scanBacktracking
  refine Returns.lift_bind hrecord ?_
  dsimp only
  split
  · rename_i hempty
    have hhistory : history = {} := congrArg History.mk (List.isEmpty_iff.1 hempty)
    have hnone : m.offers state = [] := by
      rw [offers, ← hcandidates, hhistory]
      rfl
    rw [hnone, hhistory]
    exact (m.withHistory {}).noMatch_returns htext
  · rename_i hempty
    have hsome : Strategy.backtracking.asked (m.hook.replies (m.offers state)) ≠ [] := by
      rw [Ne, Strategy.asked, untilAccepted_eq_nil, Hook.replies_eq_nil, offers,
        List.map_eq_nil_iff, ← hcandidates, candidates_eq_nil, ← List.isEmpty_iff]
      exact hempty
    have hresolve := resolve_returns m.cursor { m with source, history } hfits hsome
      (by rw [hcandidates]; rfl)
    refine Returns.of_eq (Returns.emit_bind rfl hresolve) rfl ?_
    rw [← m.afterCalls_of_read htext hsome]
    rfl

/-- **A scan of either strategy makes the calls of the reference and ends where they end**, and the
history is as empty as it was. -/
theorem scan_returns (closed : m.automaton.Closed P) (hs : P state) (idle : m.history = {}) :
    (m.scan state).Returns (m.tried state)
      (m.strategy.outcome (m.tried state), m.afterCalls (m.tried state)) := by
  have hkept : ∀ calls, (m.afterCalls calls).withHistory {} = m.afterCalls calls := by
    intro calls
    rw [← idle]
    rfl
  unfold scan tried
  cases m.strategy with
  | greedy => exact scanGreedy_returns closed hs
  | backtracking => exact Returns.of_eq (scanBacktracking_returns closed hs) rfl (by rw [hkept])

theorem candidate_of_mem_tried {call : Invocation} (h : call ∈ m.tried state) :
    ∃ c ∈ m.candidates state, call.offered = ⟨c.symbol, ⟨m.cursor, c.stop⟩⟩ := by
  have hreply := (m.strategy.asked_prefix _).subset h
  obtain ⟨o, ho, _, hfound⟩ := Hook.offered_of_mem_replies hreply
  obtain ⟨c, hc, rfl⟩ := List.mem_map.1 ho
  exact ⟨c, hc, hfound⟩

/-- What a scan offers starts at the cursor and covers a leading part of the unread text, which is
empty only at the end of the text. -/
theorem offered_of_mem_tried {call : Invocation} (h : call ∈ m.tried state) :
    call.offered.start = m.cursor ∧ ∃ x y, m.source.place.behind = x ++ y ∧
      call.offered.stop = m.cursor + Text.width x ∧ (x = [] → y = []) := by
  obtain ⟨c, hc, hoffered⟩ := candidate_of_mem_tried h
  obtain ⟨v, hv, _, hstop⟩ := mem_candidatesOf.1 hc
  obtain ⟨x, y, htext, hoffset, hempty⟩ := mem_entered hv
  rw [hoffered]
  exact ⟨rfl, x, y, htext, hstop.trans hoffset, hempty⟩

/-- What a scan offers is accepted by some state of the closed set. -/
theorem accepted_of_mem_tried (closed : m.automaton.Closed P) (hs : P state) {call : Invocation}
    (h : call ∈ m.tried state) : ∃ q, P q ∧ call.offered.symbol ∈ m.automaton.accepted q := by
  obtain ⟨c, hc, hoffered⟩ := candidate_of_mem_tried h
  obtain ⟨v, hv, hsymbol, _⟩ := mem_candidatesOf.1 hc
  rw [hoffered]
  exact ⟨v.state, state_of_mem_entered closed hs hv, hsymbol⟩

/-- The source is left exactly behind the match that was offered last. -/
theorem cursor_afterCalls_tried (m : Matcher TextSource η) (state : StateId) :
    (m.afterCalls (m.tried state)).cursor = restOf m.cursor (m.tried state) := by
  show (m.source.seek (restOf m.cursor (m.tried state))).place.offset = _
  unfold restOf
  cases hlast : (m.tried state).getLast? with
  | none => exact congrArg (fun s : TextSource => s.place.offset) m.source.seek_self
  | some last =>
    obtain ⟨_, x, y, htext, hstop, _⟩ := offered_of_mem_tried (List.mem_of_getLast? hlast)
    dsimp only
    rw [hstop]
    exact (TextSource.seek_behind htext).1

/-- **The backtracking scan equals its reference**, for every automaton whose queries never fault.

The run goes over the unread text from `state`. The hook is called on the candidates of the run, the
state entered last first, up to and including the first that it does not reject; the source stands
at the end of the candidate each time. The last call decides: none means that nothing matched, with
the source where it was; otherwise the scan ends behind the match that was offered last, which is
emitted unless it was rejected. What history the matcher had before makes no difference, and it has
none afterwards. -/
theorem scanBacktracking_eq_reference {transition : StateId → Option Char → Option StateId}
    {accepting : StateId → List SymbolId} {action : SymbolId → ActionId}
    (m : Matcher TextSource η) (total : m.automaton.Computes transition accepting action)
    (state : StateId) :
    let start := m.cursor
    let visits := entered transition m.source.place.behind state start
    let offers := (candidatesOf accepting visits).map (·.offer action start)
    let calls := untilAccepted (m.hook.replies offers)
    let stop := restOf start calls
    (m.scanBacktracking state).calls = calls ∧
      (m.scanBacktracking state).result =
        .ok (Strategy.backtracking.outcome calls,
          { m with source := m.source.seek stop, hook := m.hook.after calls, history := {} }) ∧
      (m.source.seek stop).place.offset = stop := by
  have hreturns := @scanBacktracking_returns η _ m state total.closed trivial
  have hcursor := cursor_afterCalls_tried { m with strategy := .backtracking } state
  unfold tried offers candidates at *
  rw [total.next?_eq, total.accepted_eq, total.handle_eq] at *
  exact ⟨hreturns.calls_eq, hreturns.result_eq, hcursor⟩

/-- `a` leads to state 1 and `b` from there to state 2, where the end of the input stays. -/
def lapTransition (state : StateId) (input : Option Char) : Option StateId :=
  match state.index, input with
  | 0, some 'a' => some ⟨1⟩
  | 1, some 'b' => some ⟨2⟩
  | 2, none => some ⟨2⟩
  | _, _ => none

def lapAccepting (state : StateId) : List SymbolId :=
  match state.index with
  | 1 => [⟨2⟩]
  | 2 => [⟨3⟩, ⟨1⟩]
  | _ => []

/-- A scan of `ab` with a hook that rejects its first four offers. -/
def lapMatcher : Matcher TextSource Nat where
  automaton := .ofFunctions lapTransition lapAccepting fun symbol => ⟨symbol.raw + 10⟩
  source := ⟨.start ['a', 'b'], lineStartsOf ['a', 'b'], rfl⟩
  hook := ⟨0, fun n _ _ => (.ofReject (n < 4), n + 1)⟩
  strategy := .backtracking

/-- State 2 is entered twice, at the same offset; what is left in the end is the shorter match. -/
theorem scanBacktracking_lapMatcher :
    lapMatcher.automaton.Computes lapTransition lapAccepting (fun symbol => ⟨symbol.raw + 10⟩) ∧
      (lapMatcher.scanBacktracking ⟨0⟩).calls.map (fun call => (call.offered.symbol, call.cursor)) =
        [(⟨3⟩, 2), (⟨1⟩, 2), (⟨3⟩, 2), (⟨1⟩, 2), (⟨2⟩, 1)] ∧
      (lapMatcher.scanBacktracking ⟨0⟩).result.toOption.map (fun r => (r.1, r.2.cursor)) =
        some (.emitted ⟨⟨2⟩, ⟨0, 1⟩⟩, 1) := by
  have total := Automaton.ofFunctions_computes lapTransition lapAccepting
    fun symbol => ⟨symbol.raw + 10⟩
  obtain ⟨hcalls, hresult, _⟩ := scanBacktracking_eq_reference lapMatcher total ⟨0⟩
  refine ⟨total, ?_, ?_⟩
  · rw [hcalls]
    decide
  · rw [hresult]
    decide

end Matcher

end Munch
