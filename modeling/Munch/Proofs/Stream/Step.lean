import Munch.Proofs.Scan.Resolution
import Munch.Proofs.Table.Closed
import Munch.TokenStream

/-!
# Steps and runs of a token stream

* `Request` — what a caller may ask of a stream; `TokenStream.answer` carries out one request and
  `TokenStream.serve` a list of them, observing after each the answer, the cursor, the mode and the
  hook calls. `Table.session` does so with a fresh stream over a text.
* `TokenStream.history_of_answer`, `TokenStream.history_of_serve` — between two requests the history
  of the matcher is empty.
* `NextStep`, `Step` — everything that one request to a stream over a text can come to, in terms of
  the reference for scans. `Run` is a sequence of steps; `Run.append` puts runs together and
  `Run.split`, `Run.split_requests` take them apart.
* `Step.returns` — on a closed set of states, and with an empty history, the step is what the stream
  does. `exists_step` — there is a step for every request.
* `Table.Validated.session_run` — so every session over a validated table is a run. Properties of
  sessions are proved along runs.
-/

namespace Munch

open Logged

/-- What a caller may ask of a stream, its matcher and its source. -/
inductive Request where
  | next
  | setMode (mode : Nat)
  | setOffset (offset : Nat)
  | position (offset : Nat)
  | scan (state : StateId)
  | setCursor (cursor : Nat)
deriving DecidableEq, Repr

/-- The answer to a request. -/
inductive Answer where
  | item (item : Option (Yield Match))
  | outcome (outcome : Outcome)
  | position (p : Position)
  | done
deriving Repr

/-- What a caller sees of one request: the answer, where source and mode stand behind it, and the
hook calls it took. -/
structure Observation where
  answer : Answer
  cursor : Nat
  mode : Nat
  calls : List Invocation
deriving Repr

/-- Requests that scan from one of the first `states` states only. -/
def Request.Admitted (states : Nat) : Request → Prop
  | .scan state => state.index < states
  | _ => True

instance (states : Nat) (r : Request) : Decidable (r.Admitted states) := by
  unfold Request.Admitted
  split <;> infer_instance

namespace TokenStream

variable {σ η : Type} [Source σ]

/-- Carries out one request. -/
def answer (s : TokenStream σ η) : Request → Logged (Answer × TokenStream σ η)
  | .next => do
    let (item, s) ← s.next
    return (.item item, s)
  | .setMode mode => do return (.done, ← s.setMode mode)
  | .setOffset offset => return (.done, s.setOffset offset)
  | .position offset => do return (.position (← s.position offset), s)
  | .scan state => do
    let (outcome, matcher) ← s.matcher.scan state
    return (.outcome outcome, { s with matcher })
  | .setCursor cursor => return (.done, { s with matcher := s.matcher.seek cursor })

/-- Carries out requests in order. -/
def serve : List Request → TokenStream σ η → Except Fault (List Observation × TokenStream σ η)
  | [], s => .ok ([], s)
  | request :: rest, s => do
    let performed := s.answer request
    let (answer, s) ← performed.result
    let (later, final) ← serve rest s
    return (⟨answer, s.offset, s.mode, performed.calls⟩ :: later, final)

end TokenStream

/-- A fresh stream over a text, with the forced strategy or else the one that suits the table. -/
def Table.session {η : Type} (t : Table) (input : String) (hook : Hook η)
    (forced : Option Strategy) (requests : List Request) :
    Except Fault (List Observation × TokenStream TextSource η) := do
  let matcher ← (Matcher.make t.automaton (TextSource.ofString input) hook forced).result
  TokenStream.serve requests { matcher }

/-! ## The history between two requests -/

namespace TokenStream

variable {σ η : Type} [Source σ] {s s' : TokenStream σ η}

theorem history_of_skip {why : Miss} {start : Nat} {item : Option (Yield Match)}
    (h : (s.skip why start).result = .ok (item, s')) (idle : s.matcher.history = {}) :
    s'.matcher.history = {} := by
  unfold skip at h
  dsimp only at h
  split at h
  · cases h
    exact idle
  · obtain ⟨_, _, h⟩ := Logged.bind_result_eq_ok.1 h
    cases h
    exact idle

theorem history_of_next {item : Option (Yield Match)} (h : s.next.result = .ok (item, s'))
    (idle : s.matcher.history = {}) : s'.matcher.history = {} := by
  unfold next at h
  split at h
  · cases h
    exact idle
  · split at h
    · cases h
      exact idle
    · obtain ⟨⟨outcome, matcher⟩, hscan, h⟩ := Logged.bind_result_eq_ok.1 h
      have hmatcher : matcher.history = {} := Matcher.history_of_scan hscan idle
      cases outcome with
      | emitted found =>
        obtain ⟨_, _, h⟩ := Logged.bind_result_eq_ok.1 h
        cases h
        exact hmatcher
      | missed why => exact history_of_skip h hmatcher

/-- **No request leaves a record in the history**, whatever the source and the automaton. -/
theorem history_of_answer {request : Request} {answer : Answer}
    (h : (s.answer request).result = .ok (answer, s')) (idle : s.matcher.history = {}) :
    s'.matcher.history = {} := by
  cases request with
  | next =>
    obtain ⟨⟨item, s₁⟩, hnext, h⟩ := Logged.bind_result_eq_ok.1 h
    cases h
    exact history_of_next hnext idle
  | setMode mode =>
    cases h
    exact idle
  | setOffset offset =>
    cases h
    exact idle
  | position offset =>
    obtain ⟨p, _, h⟩ := Logged.bind_result_eq_ok.1 h
    cases h
    exact idle
  | scan state =>
    obtain ⟨⟨outcome, matcher⟩, hscan, h⟩ := Logged.bind_result_eq_ok.1 h
    cases h
    exact Matcher.history_of_scan hscan idle
  | setCursor cursor =>
    cases h
    exact idle

theorem history_of_serve {requests : List Request} {observations : List Observation}
    (h : serve requests s = .ok (observations, s')) (idle : s.matcher.history = {}) :
    s'.matcher.history = {} := by
  induction requests generalizing s observations with
  | nil =>
    cases h
    exact idle
  | cons request rest ih =>
    rw [serve] at h
    cases hanswer : (s.answer request).result with
    | error fault =>
      simp only [hanswer, bind, Except.bind] at h
      cases h
    | ok r =>
      obtain ⟨answer, s₁⟩ := r
      have idle₁ := history_of_answer hanswer idle
      cases hrest : serve rest s₁ with
      | error fault =>
        simp only [hanswer, bind, Except.bind, hrest] at h
        cases h
      | ok r' =>
        simp only [hanswer, bind, Except.bind, hrest] at h
        cases h
        exact ih hrest idle₁

end TokenStream

/-! ## What a step can do -/

variable {η : Type}

/-- What asking a stream over a text for the next token can come to. -/
inductive NextStep (s : TokenStream TextSource η) :
    List Invocation → Option (Yield Match) → TokenStream TextSource η → Prop
  | idle (h : s.finished = true) : NextStep s [] none s
  | unknownMode (h : s.finished = false) (hm : s.matcher.automaton.startState? s.mode = none) :
    NextStep s [] (some (.error (.unknownMode s.mode))) { s with finished := true }
  | token {state : StateId} {found : Match} (h : s.finished = false)
    (hm : s.matcher.automaton.startState? s.mode = some state)
    (ho : s.matcher.strategy.outcome (s.matcher.tried state) = .emitted found) :
    NextStep s (s.matcher.tried state) (some (.ok found))
      { s with
        matcher := s.matcher.afterCalls (s.matcher.tried state)
        finished := found.isEmpty }
  | skipped {state : StateId} {why : Miss} {c : Char} {rest : List Char} (h : s.finished = false)
    (hm : s.matcher.automaton.startState? s.mode = some state)
    (ho : s.matcher.strategy.outcome (s.matcher.tried state) = .missed why)
    (hc : s.matcher.source.place.behind = c :: rest) :
    NextStep s (s.matcher.tried state) (some (.error (.unrecognizedCharacter c s.offset)))
      { s with
        matcher := { s.matcher with
          source := s.matcher.source.seek (s.offset + c.utf8Size)
          hook := s.matcher.hook.after (s.matcher.tried state) } }
  | ended {state : StateId} {why : Miss} (h : s.finished = false)
    (hm : s.matcher.automaton.startState? s.mode = some state)
    (ho : s.matcher.strategy.outcome (s.matcher.tried state) = .missed why)
    (hc : s.matcher.source.place.behind = []) :
    NextStep s (s.matcher.tried state) none
      { s with
        matcher := { s.matcher with hook := s.matcher.hook.after (s.matcher.tried state) }
        finished := true }

/-- What a request to a stream over a text can come to. -/
inductive Step (s : TokenStream TextSource η) :
    Request → List Invocation → Answer → TokenStream TextSource η → Prop
  | next {calls : List Invocation} {item : Option (Yield Match)} {s' : TokenStream TextSource η}
    (h : NextStep s calls item s') : Step s .next calls (.item item) s'
  | setMode (mode : Nat) :
    Step s (.setMode mode) [] .done
      { s with
        mode
        finished := s.finished && (s.matcher.automaton.startState? s.mode).isSome }
  | setOffset (offset : Nat) : Step s (.setOffset offset) [] .done (s.setOffset offset)
  | position {offset : Nat} {p : Position} (h : s.position offset = .ok p) :
    Step s (.position offset) [] (.position p) s
  | scan (state : StateId) :
    Step s (.scan state) (s.matcher.tried state)
      (.outcome (s.matcher.strategy.outcome (s.matcher.tried state)))
      { s with matcher := s.matcher.afterCalls (s.matcher.tried state) }
  | setCursor (cursor : Nat) :
    Step s (.setCursor cursor) [] .done { s with matcher := s.matcher.seek cursor }

/-- Steps one after the other, with what is observed on the way. -/
inductive Run : TokenStream TextSource η → List Request → List Observation →
    TokenStream TextSource η → Prop
  | nil (s : TokenStream TextSource η) : Run s [] [] s
  | cons {s s' final : TokenStream TextSource η} {request : Request} {rest : List Request}
    {calls : List Invocation} {answer : Answer} {later : List Observation}
    (step : Step s request calls answer s') (run : Run s' rest later final) :
    Run s (request :: rest) (⟨answer, s'.offset, s'.mode, calls⟩ :: later) final

/-! ## Steps are what streams do -/

theorem exists_nextStep (s : TokenStream TextSource η) :
    ∃ calls item s', NextStep s calls item s' := by
  cases hf : s.finished with
  | true => exact ⟨_, _, _, .idle hf⟩
  | false =>
    cases hm : s.matcher.automaton.startState? s.mode with
    | none => exact ⟨_, _, _, .unknownMode hf hm⟩
    | some state =>
      cases ho : s.matcher.strategy.outcome (s.matcher.tried state) with
      | emitted found => exact ⟨_, _, _, .token hf hm ho⟩
      | missed why =>
        cases hc : s.matcher.source.place.behind with
        | nil => exact ⟨_, _, _, .ended hf hm ho hc⟩
        | cons c rest => exact ⟨_, _, _, .skipped hf hm ho hc⟩

theorem exists_step (s : TokenStream TextSource η) (request : Request) :
    ∃ calls answer s', Step s request calls answer s' := by
  cases request with
  | next =>
    obtain ⟨calls, item, s', h⟩ := exists_nextStep s
    exact ⟨_, _, _, .next h⟩
  | setMode mode => exact ⟨_, _, _, .setMode mode⟩
  | setOffset offset => exact ⟨_, _, _, .setOffset offset⟩
  | position offset =>
    obtain ⟨p, hp⟩ := s.matcher.source.position_eq_ok offset
    exact ⟨_, _, _, .position hp⟩
  | scan state => exact ⟨_, _, _, .scan state⟩
  | setCursor cursor => exact ⟨_, _, _, .setCursor cursor⟩

/-- The states of `P` are closed, and every mode starts in one of them. -/
structure Automaton.Ready (a : Automaton) (P : StateId → Prop) : Prop extends a.Closed P where
  start_mem : ∀ {mode state}, a.startState? mode = some state → P state

theorem Table.Validated.ready {t : Table} (h : t.Validated) {a : Automaton}
    (ha : a = t.automaton) : a.Ready fun state => state.index < t.rows.size := by
  subst ha
  exact { h.closed with start_mem := h.startState_lt }

variable {P : StateId → Prop} {s s' : TokenStream TextSource η} {calls : List Invocation}

/-- A stream that missed goes back to where it was. -/
theorem seek_back {m : Matcher TextSource η}
    (ht : m.source.place.text = s.matcher.source.place.text) :
    m.seek s.offset = { m with source := s.matcher.source } := by
  have hback : m.source.seek s.offset = s.matcher.source := TextSource.seek_cursor ht.symm
  show { m with source := m.source.seek s.offset } = _
  rw [hback]

theorem skip_char (why : Miss) {m : Matcher TextSource η}
    (ht : m.source.place.text = s.matcher.source.place.text) {c : Char} {rest : List Char}
    (hc : s.matcher.source.place.behind = c :: rest) :
    (TokenStream.skip { s with matcher := m } why s.offset).Returns []
      (some (.error (.unrecognizedCharacter c s.offset)),
        { s with matcher := { m with
          source := s.matcher.source.seek (s.offset + c.utf8Size) } }) := by
  obtain ⟨source, hread, htext, _, hoffset⟩ := TextSource.read_cons hc
  have hover : s.matcher.source.seek (s.offset + c.utf8Size) = source := by
    have := TextSource.seek_cursor (s := s.matcher.source) htext
    rw [hoffset] at this
    exact this
  have hread' : Source.read s.matcher.source = some (c, source) := hread
  unfold TokenStream.skip
  simp only [seek_back ht, hread', hover]
  exact Returns.emit_bind rfl (returns_pure _)

theorem skip_end (why : Miss) {m : Matcher TextSource η}
    (ht : m.source.place.text = s.matcher.source.place.text)
    (hc : s.matcher.source.place.behind = []) :
    (TokenStream.skip { s with matcher := m } why s.offset).Returns []
      (none, { s with matcher := { m with source := s.matcher.source }, finished := true }) := by
  have hread : Source.read s.matcher.source = none := TextSource.read_nil hc
  unfold TokenStream.skip
  simp only [seek_back ht, hread]
  exact returns_pure _

theorem NextStep.returns (ready : s.matcher.automaton.Ready P) (idle : s.matcher.history = {})
    {item : Option (Yield Match)} (h : NextStep s calls item s') :
    s.next.Returns calls (item, s') := by
  unfold TokenStream.next
  cases h with
  | idle hf =>
    rw [if_pos hf]
    exact returns_pure _
  | unknownMode hf hm =>
    rw [if_neg (by simp [hf]), hm]
    exact returns_pure _
  | token hf hm ho =>
    rw [if_neg (by simp [hf]), hm]
    have hscan := Matcher.scan_returns ready.toClosed (ready.start_mem hm) idle
    rw [ho] at hscan
    exact Returns.of_eq (hscan.bind (Returns.emit_bind rfl (returns_pure _)))
      (List.append_nil _) rfl
  | @skipped state why c rest hf hm ho hc =>
    rw [if_neg (by simp [hf]), hm]
    have hscan := Matcher.scan_returns ready.toClosed (ready.start_mem hm) idle
    rw [ho] at hscan
    have hskip := skip_char why (s.matcher.text_afterCalls (s.matcher.tried state)) hc
    exact Returns.of_eq (hscan.bind hskip) (List.append_nil _) rfl
  | @ended state why hf hm ho hc =>
    rw [if_neg (by simp [hf]), hm]
    have hscan := Matcher.scan_returns ready.toClosed (ready.start_mem hm) idle
    rw [ho] at hscan
    have hskip := skip_end why (s.matcher.text_afterCalls (s.matcher.tried state)) hc
    exact Returns.of_eq (hscan.bind hskip) (List.append_nil _) rfl

/-- **On a closed set of states, a step is what the stream does.** -/
theorem Step.returns {states : Nat}
    (ready : s.matcher.automaton.Ready fun state => state.index < states)
    (idle : s.matcher.history = {}) {request : Request} (admitted : request.Admitted states)
    {answer : Answer} (h : Step s request calls answer s') :
    (s.answer request).Returns calls (answer, s') := by
  cases h with
  | next h =>
    exact Returns.of_eq ((h.returns ready idle).bind (returns_pure _)) (List.append_nil _) rfl
  | setMode mode =>
    have hset : (s.setMode mode).Returns [] { s with
        mode
        finished := s.finished && (s.matcher.automaton.startState? s.mode).isSome } :=
      Returns.emit_bind rfl (returns_pure _)
    exact hset.bind (returns_pure _)
  | setOffset offset => exact returns_pure _
  | position hp => exact Returns.lift_bind hp (returns_pure _)
  | scan state =>
    have hscan := Matcher.scan_returns ready.toClosed admitted idle
    exact Returns.of_eq (hscan.bind (returns_pure _)) (List.append_nil _) rfl
  | setCursor cursor => exact returns_pure _

/-- What no request changes: the automaton, the strategy and the text. -/
structure SameSetting (s s' : TokenStream TextSource η) : Prop where
  automaton_eq : s'.matcher.automaton = s.matcher.automaton
  strategy_eq : s'.matcher.strategy = s.matcher.strategy
  text_eq : s'.matcher.source.place.text = s.matcher.source.place.text

theorem SameSetting.refl (s : TokenStream TextSource η) : SameSetting s s := ⟨rfl, rfl, rfl⟩

theorem SameSetting.trans {s₁ s₂ s₃ : TokenStream TextSource η} (h : SameSetting s₁ s₂)
    (h' : SameSetting s₂ s₃) : SameSetting s₁ s₃ :=
  ⟨h'.automaton_eq.trans h.automaton_eq, h'.strategy_eq.trans h.strategy_eq,
    h'.text_eq.trans h.text_eq⟩

theorem Step.sameSetting {request : Request} {answer : Answer}
    (h : Step s request calls answer s') : SameSetting s s' := by
  cases h with
  | next h =>
    cases h with
    | idle => exact .refl s
    | unknownMode => exact ⟨rfl, rfl, rfl⟩
    | token => exact ⟨rfl, rfl, Matcher.text_afterCalls ..⟩
    | skipped => exact ⟨rfl, rfl, TextSource.text_seek ..⟩
    | ended => exact ⟨rfl, rfl, rfl⟩
  | setMode => exact ⟨rfl, rfl, rfl⟩
  | setOffset => exact ⟨rfl, rfl, TextSource.text_seek ..⟩
  | position => exact .refl s
  | scan => exact ⟨rfl, rfl, Matcher.text_afterCalls ..⟩
  | setCursor => exact ⟨rfl, rfl, TextSource.text_seek ..⟩

theorem Run.sameSetting {requests : List Request} {observations : List Observation}
    (h : Run s requests observations s') : SameSetting s s' := by
  induction h with
  | nil s => exact .refl s
  | cons step _ ih => exact step.sameSetting.trans ih

/-- The hook is handed on by its calls and by nothing else. -/
theorem Step.hook_eq {request : Request} {answer : Answer} (h : Step s request calls answer s') :
    s'.matcher.hook = s.matcher.hook.after calls := by
  cases h with
  | next h => cases h <;> rfl
  | _ => rfl

/-- A finished stream yields nothing, does not call the hook and stays as it is. -/
theorem NextStep.idle_of_finished {item : Option (Yield Match)} (h : NextStep s calls item s')
    (hf : s.finished = true) : calls = [] ∧ item = none ∧ s' = s := by
  cases h with
  | idle => exact ⟨rfl, rfl, rfl⟩
  | unknownMode hfalse => simp [hf] at hfalse
  | token hfalse => simp [hf] at hfalse
  | skipped hfalse => simp [hf] at hfalse
  | ended hfalse => simp [hf] at hfalse

theorem Run.length_eq {requests : List Request} {observations : List Observation}
    (h : Run s requests observations s') : observations.length = requests.length := by
  induction h with
  | nil s => rfl
  | cons _ _ ih => rw [List.length_cons, List.length_cons, ih]

theorem Run.append {s'' : TokenStream TextSource η} {requests requests' : List Request}
    {observations observations' : List Observation} (h : Run s requests observations s')
    (h' : Run s' requests' observations' s'') :
    Run s (requests ++ requests') (observations ++ observations') s'' := by
  induction h with
  | nil => exact h'
  | cons step _ ih => exact .cons step (ih h')

/-- A run of requests in two parts is two runs. -/
theorem Run.split_requests {first later : List Request} {observations : List Observation}
    (h : Run s (first ++ later) observations s') :
    ∃ middle seen rest, observations = seen ++ rest ∧ Run s first seen middle ∧
      Run middle later rest s' := by
  induction first generalizing s observations with
  | nil => exact ⟨s, [], observations, rfl, .nil s, h⟩
  | cons request requests ih =>
    cases h with
    | cons step run =>
      obtain ⟨middle, seen, rest, rfl, hfirst, hlater⟩ := ih run
      exact ⟨middle, _, rest, rfl, .cons step hfirst, hlater⟩

/-- A run whose observations are in two parts is two runs. -/
theorem Run.split {requests : List Request} {first later : List Observation}
    (h : Run s requests (first ++ later) s') :
    ∃ middle requests₁ requests₂, requests = requests₁ ++ requests₂ ∧
      Run s requests₁ first middle ∧ Run middle requests₂ later s' := by
  have hlength := h.length_eq
  rw [List.length_append] at hlength
  rw [← List.take_append_drop first.length requests] at h
  obtain ⟨middle, seen, rest, heq, hfirst, hlater⟩ := h.split_requests
  have hseen : first.length = seen.length := by
    rw [hfirst.length_eq, List.length_take]
    omega
  obtain ⟨rfl, rfl⟩ := List.append_inj heq hseen
  exact ⟨middle, _, _, (List.take_append_drop ..).symm, hfirst, hlater⟩

/-- A run is what the stream does with a list of requests. -/
theorem Run.serve_eq {states : Nat} {requests : List Request} {observations : List Observation}
    (h : Run s requests observations s')
    (ready : s.matcher.automaton.Ready fun state => state.index < states)
    (idle : s.matcher.history = {})
    (admitted : ∀ request ∈ requests, request.Admitted states) :
    TokenStream.serve requests s = .ok (observations, s') := by
  induction h with
  | nil s => rfl
  | cons step _ ih =>
    have hstep := step.returns ready idle (admitted _ List.mem_cons_self)
    rw [← step.sameSetting.automaton_eq] at ready
    have idle' := TokenStream.history_of_answer hstep.result_eq idle
    have hrest := ih ready idle' (fun r hr => admitted r (List.mem_cons_of_mem _ hr))
    rw [TokenStream.serve, hstep.result_eq, hstep.calls_eq]
    simp only [bind, Except.bind, hrest]
    rfl

theorem exists_run (requests : List Request) (s : TokenStream TextSource η) :
    ∃ observations final, Run s requests observations final := by
  induction requests generalizing s with
  | nil => exact ⟨[], s, .nil s⟩
  | cons request rest ih =>
    obtain ⟨calls, answer, s', step⟩ := exists_step s request
    obtain ⟨later, final, run⟩ := ih s'
    exact ⟨_, final, .cons step run⟩

/-! ## Sessions -/

/-- The stream with which a session begins. -/
def Table.fresh (t : Table) (input : String) (hook : Hook η) (forced : Option Strategy) :
    TokenStream TextSource η :=
  { matcher :=
      { automaton := t.automaton
        source := .ofString input
        hook
        strategy := .select forced t.mayReject } }

/-- **A session over a validated table is a run from its fresh stream.** -/
theorem Table.Validated.session_run {t : Table} (valid : t.Validated) (input : String)
    (hook : Hook η) (forced : Option Strategy) {requests : List Request}
    (admitted : ∀ request ∈ requests, request.Admitted t.rows.size) :
    ∃ observations final, t.session input hook forced requests = .ok (observations, final) ∧
      Run (t.fresh input hook forced) requests observations final := by
  obtain ⟨observations, final, run⟩ := exists_run requests (t.fresh input hook forced)
  exact ⟨observations, final, run.serve_eq (valid.ready rfl) rfl admitted, run⟩

end Munch
