import Munch.Proofs.Stream.Step

/-!
# Sessions do not break contracts

A table is validated once and then looked up unchecked, in whatever order a caller asks for tokens,
switches modes and moves the source.

* `Step.calls_eq` — the hook calls of a request are those of one scan from a state of the closed
  set, or there are none.
* `Observation.Within` — what a request shows lies inside the text and the table. `Run.within` — so
  does what a run shows.
* `Table.Validated.session_never_faults` — no session over a validated table faults, and its text is
  never cut or measured where it must not be.
-/

namespace Munch

variable {η : Type} {s s' : TokenStream TextSource η} {calls : List Invocation}

/-- A request scans at most once, from a state of the closed set. -/
theorem Step.calls_eq {states : Nat}
    (ready : s.matcher.automaton.Ready fun state => state.index < states) {request : Request}
    (admitted : request.Admitted states) {answer : Answer} (h : Step s request calls answer s') :
    calls = [] ∨ ∃ state : StateId, state.index < states ∧ calls = s.matcher.tried state := by
  cases h with
  | next h =>
    cases h with
    | idle => exact Or.inl rfl
    | unknownMode => exact Or.inl rfl
    | token _ hm => exact Or.inr ⟨_, ready.start_mem hm, rfl⟩
    | skipped _ hm => exact Or.inr ⟨_, ready.start_mem hm, rfl⟩
    | ended _ hm => exact Or.inr ⟨_, ready.start_mem hm, rfl⟩
  | setMode => exact Or.inl rfl
  | setOffset => exact Or.inl rfl
  | position => exact Or.inl rfl
  | scan state => exact Or.inr ⟨state, admitted, rfl⟩
  | setCursor => exact Or.inl rfl

/-- What is observed lies inside the text and the table. -/
structure Observation.Within (t : Table) (text : List Char) (o : Observation) : Prop where
  cursor : Text.IsBoundary text o.cursor
  /-- A match that is offered can be cut out of the text. In particular it does not end before it
  starts. -/
  span : ∀ call ∈ o.calls, (Text.slice? text call.offered.start call.offered.stop).isSome
  symbol : ∀ call ∈ o.calls, call.offered.symbol.index < t.symbols.size

theorem Matcher.slice?_of_mem_tried {m : Matcher TextSource η} {state : StateId}
    {call : Invocation} (h : call ∈ m.tried state) :
    (Text.slice? m.source.place.text call.offered.start call.offered.stop).isSome := by
  obtain ⟨hstart, x, y, htext, hstop, _⟩ := offered_of_mem_tried h
  have hslice := TextSource.slice?_behind htext
  rw [hstart, hstop]
  exact Option.isSome_of_eq_some hslice

variable {t : Table}

theorem Step.within (valid : t.Validated) (ht : s.matcher.automaton = t.automaton)
    {request : Request} (admitted : request.Admitted t.rows.size) {answer : Answer}
    (h : Step s request calls answer s') :
    Observation.Within t s.matcher.source.place.text ⟨answer, s'.offset, s'.mode, calls⟩ := by
  have ready := valid.ready ht
  have hcalls := h.calls_eq ready admitted
  constructor
  · rw [← h.sameSetting.text_eq]
    exact s'.matcher.source.place.isBoundary
  · intro call hcall
    rcases hcalls with rfl | ⟨state, _, rfl⟩
    · cases hcall
    · exact Matcher.slice?_of_mem_tried hcall
  · intro call hcall
    rcases hcalls with rfl | ⟨state, hs, rfl⟩
    · cases hcall
    · obtain ⟨q, hq, hsymbol⟩ := Matcher.accepted_of_mem_tried ready.toClosed hs hcall
      rw [ht] at hsymbol
      exact valid.accepted_lt hq hsymbol

theorem Run.within (valid : t.Validated) {requests : List Request}
    {observations : List Observation} (h : Run s requests observations s')
    (ht : s.matcher.automaton = t.automaton)
    (admitted : ∀ request ∈ requests, request.Admitted t.rows.size) :
    ∀ o ∈ observations, o.Within t s.matcher.source.place.text := by
  induction h with
  | nil s => intro o ho; cases ho
  | cons step _ ih =>
    have hsame := step.sameSetting
    have hfirst := step.within valid ht (admitted _ List.mem_cons_self)
    have hlater := ih (hsame.automaton_eq.trans ht)
      (fun r hr => admitted r (List.mem_cons_of_mem _ hr))
    rw [hsame.text_eq] at hlater
    exact List.forall_mem_cons.2 ⟨hfirst, hlater⟩

/-- **No session over a validated table breaks a contract**, with either strategy and any hook, and
whatever is asked in whatever order. Every look-up of a state or a symbol, every span, position and
recorded acceptance is admitted, or the session would not end with a value; that an acceptance has a
first symbol is in its type. What the session shows lies inside the text and the table, and reading,
seeking and locating are safe wherever the source may stand. -/
theorem Table.Validated.session_never_faults (valid : t.Validated) (input : String) (hook : Hook η)
    (forced : Option Strategy) {requests : List Request}
    (admitted : ∀ request ∈ requests, request.Admitted t.rows.size) :
    ∃ observations final, t.session input hook forced requests = .ok (observations, final) ∧
      observations.length = requests.length ∧
      (∀ o ∈ observations, o.Within t input.toList) ∧
      final.matcher.source.place.text = input.toList ∧
      ∀ source : TextSource, source.place.text = input.toList → source.Safe := by
  obtain ⟨observations, final, hsession, run⟩ := valid.session_run input hook forced admitted
  refine ⟨observations, final, hsession, run.length_eq, run.within valid rfl admitted, ?_, ?_⟩
  · exact run.sameSetting.text_eq
  · intro source _
    exact source.safe

/-- Offsets inside a character and behind the text, a mode that does not exist, and a hook that
rejects everything. -/
theorem session_never_faults_wordTable :
    let requests := [.next, .setOffset 2, .scan ⟨1⟩, .setMode 5, .next, .position 9, .setCursor 7]
    wordTable.Validated ∧ (∀ request ∈ requests, request.Admitted wordTable.rows.size) ∧
      ∃ observations final,
        wordTable.session "aé1" ⟨0, fun n _ _ => (.reject, n + 1)⟩ (some .backtracking) requests =
          .ok (observations, final) ∧
        observations.length = 7 ∧ ∀ o ∈ observations, o.Within wordTable "aé1".toList := by
  intro requests
  have admitted : ∀ request ∈ requests, request.Admitted wordTable.rows.size := by decide
  obtain ⟨observations, final, hsession, hlength, hwithin, _⟩ :=
    wordTable_validated.session_never_faults "aé1" ⟨0, fun n _ _ => (.reject, n + 1)⟩
      (some .backtracking) admitted
  exact ⟨wordTable_validated, admitted, observations, final, hsession, hlength, hwithin⟩

end Munch
