import Munch.Proofs.Stream.Ending

/-!
# The hook calls and the tokens

Hooks build the values of tokens on the side, so that the calls made to a hook and the tokens that a
stream yields have to tell the same story.

* `Strategy.credited` — the calls that stand for tokens: those that were accepted, or all of them
  with the greedy strategy, which does not take no for an answer.
* `Strategy.asked_cases` — everything that the calls of one scan can come to.
* `CallsAgree` — the calls made for one request fit the answer to it. `Step.callsAgree` — every step
  of a stream is such. `credited_callsMade` — so the calls that stand for tokens are the tokens of a
  run.
* `Table.Validated.session_log_agrees` — the same for sessions over a validated table.
-/

namespace Munch

/-- The calls that stand for tokens. -/
def Strategy.credited : Strategy → List Invocation → List Invocation
  | .greedy, calls => calls
  | .backtracking, calls => calls.filter (·.verdict = .accept)

theorem Strategy.credited_append (strategy : Strategy) (calls later : List Invocation) :
    strategy.credited (calls ++ later) = strategy.credited calls ++ strategy.credited later := by
  cases strategy with
  | greedy => rfl
  | backtracking => exact List.filter_append ..

/-! ## One scan -/

/-- Every call but the last is rejected; the last one may be rejected, too. -/
theorem untilAccepted_cases (replies : List Invocation) :
    (∀ call ∈ untilAccepted replies, call.verdict = .reject) ∨
      ∃ rejected last, untilAccepted replies = rejected ++ [last] ∧
        (∀ call ∈ rejected, call.verdict = .reject) ∧ last.verdict = .accept := by
  induction replies with
  | nil => exact Or.inl fun _ h => nomatch h
  | cons call rest ih =>
    cases hv : call.verdict with
    | accept =>
      rw [untilAccepted_of_accept hv]
      exact Or.inr ⟨[], call, rfl, by simp, hv⟩
    | reject =>
      rw [untilAccepted_of_reject hv]
      rcases ih with hall | ⟨rejected, last, heq, hrejected, hlast⟩
      · exact Or.inl (List.forall_mem_cons.2 ⟨hv, hall⟩)
      · refine Or.inr ⟨call :: rejected, last, ?_, List.forall_mem_cons.2 ⟨hv, hrejected⟩, hlast⟩
        rw [heq, List.cons_append]

theorem filter_accept_of_rejected {calls : List Invocation}
    (h : ∀ call ∈ calls, call.verdict = .reject) : calls.filter (·.verdict = .accept) = [] := by
  rw [List.filter_eq_nil_iff]
  intro call hcall
  simp [h call hcall]

/-- **What the calls of a scan can come to.** Either all were rejected and the scan missed, or the
last one gave the token and all others were rejected. -/
theorem Strategy.asked_cases (strategy : Strategy) (replies : List Invocation) :
    let calls := strategy.asked replies
    (∃ why, strategy.outcome calls = .missed why ∧ strategy.credited calls = [] ∧
        ∀ call ∈ calls, call.verdict = .reject) ∨
      ∃ rejected last, calls = rejected ++ [last] ∧ strategy.outcome calls = .emitted last.offered ∧
        strategy.credited calls = [last] ∧ ∀ call ∈ rejected, call.verdict = .reject := by
  cases strategy with
  | greedy =>
    cases replies with
    | nil => exact Or.inl ⟨.noMatch, rfl, rfl, fun _ h => nomatch h⟩
    | cons call rest => exact Or.inr ⟨[], call, rfl, rfl, rfl, fun _ h => nomatch h⟩
  | backtracking =>
    simp only [asked, credited]
    rcases untilAccepted_cases replies with hall | ⟨rejected, last, heq, hrejected, hlast⟩
    · refine Or.inl ?_
      rcases (untilAccepted replies).eq_nil_or_concat with hnil | ⟨earlier, last, heq⟩
      · exact ⟨.noMatch, by rw [hnil]; rfl, filter_accept_of_rejected hall, hall⟩
      · have hlast : last.verdict = .reject := hall last (by simp [heq])
        exact ⟨.rejected, by simp [heq, outcome, hlast], filter_accept_of_rejected hall, hall⟩
    · refine Or.inr ⟨rejected, last, heq, ?_, ?_, hrejected⟩
      · simp [heq, outcome, hlast]
      · simp [heq, filter_accept_of_rejected hrejected, hlast]

/-! ## One request -/

/-- The calls made for one request fit the answer to it. -/
structure CallsAgree (strategy : Strategy) (calls : List Invocation) (answer : Answer) : Prop where
  /-- The calls that stand for tokens are the token that is yielded. -/
  credited : (strategy.credited calls).map (·.offered) = answer.token?.toList
  /-- An accepted call is the last one. -/
  accepted_last : ∀ call ∈ calls.dropLast, call.verdict = .reject
  /-- Without a token all calls were rejected. -/
  rejected : answer.token? = none → ∀ call ∈ calls, call.verdict = .reject
  /-- The report of an unknown mode takes no call. -/
  unknownMode : ∀ mode, answer = .item (some (.error (.unknownMode mode))) → calls = []

theorem callsAgree_nil (strategy : Strategy) {answer : Answer} (h : answer.token? = none) :
    CallsAgree strategy [] answer where
  credited := by cases strategy <;> rw [h] <;> rfl
  accepted_last := by simp
  rejected := by simp
  unknownMode := fun _ _ => rfl

theorem callsAgree_token {strategy : Strategy} {replies : List Invocation} {found : Match}
    (h : strategy.outcome (strategy.asked replies) = .emitted found) :
    CallsAgree strategy (strategy.asked replies) (.item (some (.ok found))) := by
  rcases strategy.asked_cases replies with ⟨why, hmissed, _⟩ |
    ⟨rejected, last, heq, hemitted, hcredited, hrejected⟩
  · rw [hmissed] at h
    cases h
  · rw [hemitted] at h
    cases h
    refine ⟨by rw [hcredited]; rfl, ?_, (fun h => nomatch h), (fun _ h => nomatch h)⟩
    rw [heq, List.dropLast_concat]
    exact hrejected

theorem callsAgree_missed {strategy : Strategy} {replies : List Invocation} {why : Miss}
    (h : strategy.outcome (strategy.asked replies) = .missed why) {answer : Answer}
    (hnone : answer.token? = none)
    (hmode : ∀ mode, answer ≠ .item (some (.error (.unknownMode mode)))) :
    CallsAgree strategy (strategy.asked replies) answer := by
  rcases strategy.asked_cases replies with ⟨_, _, hcredited, hall⟩ | ⟨_, _, _, hemitted, _⟩
  · refine ⟨by rw [hcredited, hnone]; rfl, ?_, fun _ => hall, fun mode h => absurd h (hmode mode)⟩
    intro call hcall
    exact hall call (List.dropLast_subset _ hcall)
  · rw [hemitted] at h
    cases h

/-- Requests that leave it to the stream to scan. -/
def Request.Streaming : Request → Prop
  | .scan _ => False
  | _ => True

instance : (r : Request) → Decidable r.Streaming
  | .scan _ => isFalse id
  | .next | .setMode _ | .setOffset _ | .position _ | .setCursor _ => isTrue trivial

theorem Request.Streaming.admitted {request : Request} (h : request.Streaming) (states : Nat) :
    request.Admitted states := by
  cases request with
  | scan => exact h.elim
  | _ => trivial

variable {η : Type} {s s' : TokenStream TextSource η} {calls : List Invocation} {answer : Answer}

/-- **The calls of every step fit its answer.** -/
theorem Step.callsAgree {request : Request} (streaming : request.Streaming)
    (h : Step s request calls answer s') : CallsAgree s.matcher.strategy calls answer := by
  cases h with
  | next h =>
    cases h with
    | idle => exact callsAgree_nil _ rfl
    | unknownMode => exact callsAgree_nil _ rfl
    | token _ _ ho => exact callsAgree_token ho
    | skipped _ _ ho => exact callsAgree_missed ho rfl (fun _ h => nomatch h)
    | ended _ _ ho => exact callsAgree_missed ho rfl (fun _ h => nomatch h)
  | setMode => exact callsAgree_nil _ rfl
  | setOffset => exact callsAgree_nil _ rfl
  | position => exact callsAgree_nil _ rfl
  | scan => exact streaming.elim
  | setCursor => exact callsAgree_nil _ rfl

/-! ## Runs -/

variable {t : Table} {requests : List Request} {observations : List Observation}

/-- All hook calls of a run, in order. -/
def callsMade (observations : List Observation) : List Invocation := observations.flatMap (·.calls)

/-- All tokens of a run, in order. -/
def tokensOf (observations : List Observation) : List Match :=
  observations.filterMap (·.answer.token?)

theorem Run.hook_eq (h : Run s requests observations s') :
    s'.matcher.hook = s.matcher.hook.after (callsMade observations) := by
  induction h with
  | nil => rfl
  | cons step _ ih =>
    rw [ih, step.hook_eq, ← Hook.after_append]
    rfl

theorem Run.callsAgree (h : Run s requests observations s')
    (streaming : ∀ request ∈ requests, request.Streaming) :
    ∀ o ∈ observations, CallsAgree s.matcher.strategy o.calls o.answer := by
  induction h with
  | nil => exact fun _ h => nomatch h
  | cons step _ ih =>
    have hrest := ih (fun r hr => streaming r (List.mem_cons_of_mem _ hr))
    rw [step.sameSetting.strategy_eq] at hrest
    exact List.forall_mem_cons.2 ⟨step.callsAgree (streaming _ List.mem_cons_self), hrest⟩

/-- Calls that fit their answers one by one fit them as a whole. -/
theorem credited_callsMade {strategy : Strategy}
    (h : ∀ o ∈ observations, CallsAgree strategy o.calls o.answer) :
    (strategy.credited (callsMade observations)).map (·.offered) = tokensOf observations := by
  induction observations with
  | nil => cases strategy <;> rfl
  | cons o rest ih =>
    obtain ⟨hfirst, hrest⟩ := List.forall_mem_cons.1 h
    have hcalls : callsMade (o :: rest) = o.calls ++ callsMade rest := List.flatMap_cons
    rw [hcalls, strategy.credited_append, List.map_append, hfirst.credited, ih hrest]
    simp only [tokensOf, List.filterMap_cons]
    cases o.answer.token? with
    | none => rfl
    | some found => rfl

/-- **The hook calls and the tokens agree.** Over a validated table, whatever the hook, the strategy
and the requests to the stream: the calls have made the hook what it is in the end. Those that were
accepted, or all of them with the greedy strategy, are the tokens, in the same order. For each
request, an accepted call is the last one; without a token all calls were rejected; the report of an
unknown mode and a stream that is finished take no call at all. -/
theorem Table.Validated.session_log_agrees (valid : t.Validated) (input : String) (hook : Hook η)
    (forced : Option Strategy) (streaming : ∀ request ∈ requests, request.Streaming) :
    let strategy := Strategy.select forced t.mayReject
    ∃ observations final, t.session input hook forced requests = .ok (observations, final) ∧
      final.matcher.hook = hook.after (callsMade observations) ∧
      (strategy.credited (callsMade observations)).map (·.offered) = tokensOf observations ∧
      (∀ o ∈ observations, CallsAgree strategy o.calls o.answer) ∧
      ∀ before later, requests = before ++ .next :: later →
        ∃ seen s o rest, t.session input hook forced before = .ok (seen, s) ∧
          observations = seen ++ o :: rest ∧
          (s.finished = true → o.answer = .item none ∧ o.calls = []) := by
  intro strategy
  have admitted : ∀ request ∈ requests, request.Admitted t.rows.size :=
    fun r hr => (streaming r hr).admitted _
  obtain ⟨observations, final, hsession, run⟩ := valid.session_run input hook forced admitted
  have hagree := run.callsAgree streaming
  refine ⟨observations, final, hsession, run.hook_eq, credited_callsMade hagree, hagree, ?_⟩
  rintro before later rfl
  obtain ⟨s, seen, rest, rfl, first, second⟩ := run.split_requests
  have hbefore := first.serve_eq (valid.ready rfl) rfl (List.forall_mem_append.1 admitted).1
  cases second with
  | cons step _ =>
    refine ⟨seen, s, _, _, hbefore, rfl, ?_⟩
    intro hf
    cases step with
    | next h =>
      obtain ⟨hcalls, rfl, _⟩ := h.idle_of_finished hf
      exact ⟨rfl, hcalls⟩

/-- Longer matches are rejected, an unknown mode is reported, and a stream that is finished is asked
and moved back. -/
theorem session_log_agrees_wordTable :
    let requests := [.next, .next, .setMode 5, .next, .next, .setMode 0, .setOffset 4, .next, .next]
    let picky : Hook Nat := ⟨0, fun n _ m => (.ofReject (1 < m.length), n + 1)⟩
    (∀ request ∈ requests, request.Streaming) ∧ wordTable.Validated ∧
      ∃ observations final,
        wordTable.session "ab cd" picky (some .backtracking) requests = .ok (observations, final) ∧
        final.matcher.hook = picky.after (callsMade observations) ∧
        ((callsMade observations).filter (·.verdict = .accept)).map (·.offered) =
          tokensOf observations ∧
        tokensOf observations = [⟨⟨0⟩, ⟨0, 1⟩⟩, ⟨⟨0⟩, ⟨1, 2⟩⟩, ⟨⟨0⟩, ⟨4, 5⟩⟩, ⟨⟨1⟩, ⟨5, 5⟩⟩] := by
  intro requests picky
  have streaming : ∀ request ∈ requests, request.Streaming := by decide
  have hrun : (wordTable.session "ab cd" picky (some .backtracking) requests).toOption.map
      (fun r => tokensOf r.1) =
        some [⟨⟨0⟩, ⟨0, 1⟩⟩, ⟨⟨0⟩, ⟨1, 2⟩⟩, ⟨⟨0⟩, ⟨4, 5⟩⟩, ⟨⟨1⟩, ⟨5, 5⟩⟩] := by decide +kernel
  obtain ⟨observations, final, hsession, hhook, hcredited, _⟩ :=
    wordTable_validated.session_log_agrees "ab cd" picky (some .backtracking) streaming
  rw [hsession] at hrun
  exact ⟨streaming, wordTable_validated, observations, final, hsession, hhook, hcredited,
    Option.some.inj hrun⟩

end Munch
