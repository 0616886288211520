import Munch.Proofs.Stream.Tiling

/-!
# Detours through unknown modes

A switch to an unknown mode is reported by the next request for a token, once, and stops the stream.
The switch after that lets it go on. In between the source and the hook are left alone, so that
nothing remembers the detour.

* `Request.Astray` — the requests of a detour: more tokens and more unknown modes.
* `Request.detourAnswer` — the answer to such a request; it depends on the request directly before
  it only.
* `OnDetour` — where a stream stands on a detour. `Step.onDetour` — every request of a detour keeps
  it there and is answered as it should be. `Run.onDetour` — so are all of them.
* `OnDetour.setMode_eq` — a switch of the mode takes the stream to where the same switch would have
  taken it at once.
* `Table.Validated.session_detour` — a session cannot tell that there was a detour.
-/

namespace Munch

/-- A request for the next token, or for a mode that the table does not know. -/
def Request.Astray (t : Table) : Request → Prop
  | .next => True
  | .setMode mode => t.startState? mode = none
  | _ => False

instance (t : Table) : (request : Request) → Decidable (request.Astray t)
  | .next => isTrue trivial
  | .setMode mode => decidable_of_iff ((t.startState? mode).isNone = true) Option.isNone_iff_eq_none
  | .setOffset _ | .position _ | .scan _ | .setCursor _ => isFalse id

theorem Request.Astray.driving {t : Table} {request : Request} (h : request.Astray t) :
    request.Driving := by
  cases request with
  | next => trivial
  | setMode => trivial
  | _ => exact h.elim

/-- The answer to a request of a detour that follows directly on `last`: a mode is reported by the
request for a token behind its switch, and there is nothing to yield otherwise. -/
def Request.detourAnswer : (last request : Request) → Answer
  | _, .setMode _ => .done
  | .setMode mode, _ => .item (some (.error (.unknownMode mode)))
  | _, _ => .item none

variable {η : Type} {t : Table} {s s₁ s₂ : TokenStream TextSource η} {last request : Request}

/-- The stream `s₁` is on a detour from `s`, behind the request `last`. Nothing has moved, and the
stream is finished from the report of its mode on. -/
structure OnDetour (t : Table) (s : TokenStream TextSource η) (last : Request)
    (s₁ : TokenStream TextSource η) : Prop where
  matcher_eq : s₁.matcher = s.matcher
  unknown : t.startState? s₁.mode = none
  reported : last = .setMode s₁.mode ∧ s₁.finished = false ∨ last = .next ∧ s₁.finished = true

/-! ## One request -/

/-- A detour begins where a stream that is not finished is switched to an unknown mode. -/
theorem onDetour_setMode (hf : s.finished = false) {mode : Nat} (hm : t.startState? mode = none) :
    OnDetour t s (.setMode mode)
      { s with
        mode
        finished := s.finished && (s.matcher.automaton.startState? s.mode).isSome } :=
  ⟨rfl, hm, Or.inl ⟨rfl, by rw [hf, Bool.false_and]⟩⟩

/-- A request for a token on a detour reports the mode if nothing has been asked since its
switch. -/
theorem NextStep.onDetour {calls : List Invocation} {item : Option (Yield Match)}
    (ht : s.matcher.automaton = t.automaton) (detour : OnDetour t s last s₁)
    (h : NextStep s₁ calls item s₂) :
    OnDetour t s .next s₂ ∧ .item item = last.detourAnswer .next ∧ calls = [] := by
  have hunknown : s₁.matcher.automaton.startState? s₁.mode = none := by
    rw [detour.matcher_eq, ht]
    exact detour.unknown
  cases h with
  | idle hf =>
    rcases detour.reported with ⟨_, hopen⟩ | ⟨rfl, _⟩
    · simp [hf] at hopen
    · exact ⟨⟨detour.matcher_eq, detour.unknown, Or.inr ⟨rfl, hf⟩⟩, rfl, rfl⟩
  | unknownMode hf =>
    rcases detour.reported with ⟨rfl, _⟩ | ⟨_, hclosed⟩
    · exact ⟨⟨detour.matcher_eq, detour.unknown, Or.inr ⟨rfl, rfl⟩⟩, rfl, rfl⟩
    · simp [hf] at hclosed
  | token _ hm => simp [hunknown] at hm
  | skipped _ hm => simp [hunknown] at hm
  | ended _ hm => simp [hunknown] at hm

/-- On a detour the mode is unknown, so that every switch clears the flag of its report. -/
theorem OnDetour.setMode_eq (ht : s.matcher.automaton = t.automaton) (hf : s.finished = false)
    (detour : OnDetour t s last s₁) (mode : Nat) :
    { s₁ with
      mode
      finished := s₁.finished && (s₁.matcher.automaton.startState? s₁.mode).isSome } =
      { s with mode } := by
  have hunknown : s.matcher.automaton.startState? s₁.mode = none := by
    rw [ht]
    exact detour.unknown
  obtain ⟨matcher, old, finished⟩ := s₁
  obtain rfl : matcher = s.matcher := detour.matcher_eq
  simp only [hunknown, Option.isSome_none, Bool.and_false, hf]

/-- **Every request of a detour keeps the stream on it and is answered as it should be.** -/
theorem Step.onDetour {calls : List Invocation} {answer : Answer}
    (ht : s.matcher.automaton = t.automaton) (hf : s.finished = false)
    (detour : OnDetour t s last s₁) (astray : request.Astray t)
    (h : Step s₁ request calls answer s₂) :
    OnDetour t s request s₂ ∧ answer = last.detourAnswer request ∧ calls = [] := by
  cases h with
  | next h => exact h.onDetour ht detour
  | setMode mode =>
    rw [detour.setMode_eq ht hf mode]
    exact ⟨⟨rfl, astray, Or.inl ⟨rfl, hf⟩⟩, by cases last <;> rfl, rfl⟩
  | setOffset => exact astray.elim
  | position => exact astray.elim
  | scan => exact astray.elim
  | setCursor => exact astray.elim

/-! ## Runs -/

/-- **A detour only answers.** -/
theorem Run.onDetour {requests : List Request} {observations : List Observation}
    (h : Run s₁ requests observations s₂) (ht : s.matcher.automaton = t.automaton)
    (hf : s.finished = false) (detour : OnDetour t s last s₁)
    (astray : ∀ request ∈ requests, request.Astray t) :
    (∃ last', OnDetour t s last' s₂) ∧
      observations.map (·.answer) = List.zipWith Request.detourAnswer (last :: requests) requests ∧
      ∀ o ∈ observations, o.cursor = s.offset ∧ o.calls = [] := by
  induction h generalizing last with
  | nil => exact ⟨⟨last, detour⟩, rfl, fun _ ho => nomatch ho⟩
  | @cons _ s' _ request rest calls answer later step _ ih =>
    obtain ⟨hfirst, hrest⟩ := List.forall_mem_cons.1 astray
    obtain ⟨detour', rfl, rfl⟩ := step.onDetour ht hf detour hfirst
    obtain ⟨hlast, hanswers, hframe⟩ := ih detour' hrest
    refine ⟨hlast, ?_, List.forall_mem_cons.2 ⟨⟨?_, rfl⟩, hframe⟩⟩
    · rw [List.map_cons, hanswers]
      rfl
    · show s'.matcher.cursor = s.matcher.cursor
      rw [detour'.matcher_eq]

/-- The way there and back: what a detour shows, and that a switch of the mode ends it where the
same switch would have led at once. -/
theorem exists_run_detour (ht : s.matcher.automaton = t.automaton) (hf : s.finished = false)
    {unknown : Nat} (hunknown : t.startState? unknown = none) {requests : List Request}
    (astray : ∀ request ∈ requests, request.Astray t) :
    ∃ shown away, Run s (.setMode unknown :: requests) shown away ∧
      shown.map (·.answer) =
        .done :: List.zipWith Request.detourAnswer (.setMode unknown :: requests) requests ∧
      (∀ o ∈ shown, o.cursor = s.offset ∧ o.calls = []) ∧ away.matcher = s.matcher ∧
      ∀ mode, Step away (.setMode mode) [] .done { s with mode } := by
  have leaving := onDetour_setMode hf hunknown
  obtain ⟨shown, away, run⟩ := exists_run requests _
  obtain ⟨⟨last, arrived⟩, hanswers, hframe⟩ := run.onDetour ht hf leaving astray
  refine ⟨_, away, .cons (.setMode unknown) run, ?_, ?_, arrived.matcher_eq, fun mode => ?_⟩
  · rw [List.map_cons, hanswers]
  · exact List.forall_mem_cons.2 ⟨⟨rfl, rfl⟩, hframe⟩
  · have step := Step.setMode (s := away) mode
    rwa [arrived.setMode_eq ht hf mode] at step

/-- The switch that a detour comes down to. -/
theorem step_setMode (hf : s.finished = false) (mode : Nat) :
    Step s (.setMode mode) [] .done { s with mode } := by
  have step := Step.setMode (s := s) mode
  rw [hf, Bool.false_and, ← hf] at step
  exact step

/-- **A detour through unknown modes leaves no trace.** Over a validated table, whatever the hook,
the strategy and the requests made before: a stream that is not finished is switched to an unknown
mode, and then it is only asked for tokens and switched to other unknown modes. Directly behind a
switch the request for a token reports the mode, and all others yield nothing. No hook call is made,
and neither the source nor the hook changes. A switch to any mode then leaves the stream as that
switch would have left it at once, with the source, the hook and the flag of `s`, so that whatever
is asked later is answered alike. -/
theorem Table.Validated.session_detour (valid : t.Validated) (input : String) (hook : Hook η)
    (forced : Option Strategy) {before detour : List Request} {unknown : Nat}
    (admitted : ∀ request ∈ before, request.Admitted t.rows.size)
    (hunknown : t.startState? unknown = none) (astray : ∀ request ∈ detour, request.Astray t) :
    ∃ seen s, t.session input hook forced before = .ok (seen, s) ∧
      (s.finished = false → ∃ shown away,
        t.session input hook forced (before ++ .setMode unknown :: detour) =
          .ok (seen ++ shown, away) ∧
        shown.map (·.answer) =
          .done :: List.zipWith Request.detourAnswer (.setMode unknown :: detour) detour ∧
        (∀ o ∈ shown, o.cursor = s.offset ∧ o.calls = []) ∧ away.matcher = s.matcher ∧
        ∀ mode later, (∀ request ∈ later, request.Admitted t.rows.size) → ∃ rest final,
          TokenStream.serve later { s with mode } = .ok (rest, final) ∧
          t.session input hook forced
              (before ++ .setMode unknown :: detour ++ .setMode mode :: later) =
            .ok (seen ++ shown ++ ⟨.done, s.offset, mode, []⟩ :: rest, final) ∧
          t.session input hook forced (before ++ .setMode mode :: later) =
            .ok (seen ++ ⟨.done, s.offset, mode, []⟩ :: rest, final)) := by
  obtain ⟨seen, s, hsession, run⟩ := valid.session_run input hook forced admitted
  refine ⟨seen, s, hsession, fun hf => ?_⟩
  have ht : s.matcher.automaton = t.automaton := run.sameSetting.automaton_eq
  obtain ⟨shown, away, stray, hanswers, hframe, hmatcher, hback⟩ :=
    exists_run_detour ht hf hunknown astray
  have hout : ∀ request ∈ before ++ .setMode unknown :: detour, request.Admitted t.rows.size :=
    List.forall_mem_append.2 ⟨admitted, List.forall_mem_cons.2
      ⟨trivial, fun r hr => (astray r hr).driving.admitted _⟩⟩
  have strayed := run.append stray
  refine ⟨shown, away, strayed.serve_eq (valid.ready rfl) rfl hout, hanswers, hframe, hmatcher, ?_⟩
  intro mode later hlater
  obtain ⟨rest, final, after⟩ := exists_run later { s with mode }
  have hthen : ∀ request ∈ Request.setMode mode :: later, request.Admitted t.rows.size :=
    List.forall_mem_cons.2 ⟨trivial, hlater⟩
  -- from here on the stream is the same, whether it comes from the detour or not
  have idle : s.matcher.history = {} := TokenStream.history_of_serve hsession rfl
  refine ⟨rest, final, after.serve_eq (valid.ready ht) idle hlater, ?_, ?_⟩
  · exact (strayed.append (.cons (hback mode) after)).serve_eq (valid.ready rfl) rfl
      (List.forall_mem_append.2 ⟨hout, hthen⟩)
  · exact (run.append (.cons (step_setMode hf mode) after)).serve_eq (valid.ready rfl) rfl
      (List.forall_mem_append.2 ⟨admitted, hthen⟩)

/-- Behind a letter and a character that no rule accepts, the stream is switched to mode 5 and asked
twice there, and then switched to mode 7 and at once to mode 9, where it is asked again. -/
theorem session_detour_wordTable :
    let before := [.next, .next]
    let detour := [.next, .next, .setMode 7, .setMode 9, .next]
    wordTable.Validated ∧ (∀ request ∈ before, request.Admitted wordTable.rows.size) ∧
      wordTable.startState? 5 = none ∧ (∀ request ∈ detour, request.Astray wordTable) ∧
      ∃ seen s shown away rest final,
        wordTable.session "a bé" Hook.acceptAll none before = .ok (seen, s) ∧
        s.finished = false ∧ (wordTable.startState? s.mode).isSome = true ∧
        wordTable.session "a bé" Hook.acceptAll none (before ++ .setMode 5 :: detour) =
          .ok (seen ++ shown, away) ∧
        shown.map (·.answer) = [.done, .item (some (.error (.unknownMode 5))), .item none, .done,
          .done, .item (some (.error (.unknownMode 9)))] ∧
        (∀ o ∈ shown, o.cursor = s.offset ∧ o.calls = []) ∧
        wordTable.session "a bé" Hook.acceptAll none
            (before ++ .setMode 5 :: detour ++ [.setMode 0, .next, .next, .next]) =
          .ok (seen ++ shown ++ ⟨.done, s.offset, 0, []⟩ :: rest, final) ∧
        wordTable.session "a bé" Hook.acceptAll none
            (before ++ [.setMode 0, .next, .next, .next]) =
          .ok (seen ++ ⟨.done, s.offset, 0, []⟩ :: rest, final) := by
  intro before detour
  have admitted : ∀ request ∈ before, request.Admitted wordTable.rows.size := by decide
  have astray : ∀ request ∈ detour, request.Astray wordTable := by decide
  have hunknown : wordTable.startState? 5 = none := by decide
  have hstart : (wordTable.session "a bé" Hook.acceptAll none before).toOption.map (fun r =>
      (r.2.finished, (wordTable.startState? r.2.mode).isSome)) = some (false, true) := by
    decide +kernel
  obtain ⟨seen, s, hsession, hdetour⟩ :=
    wordTable_validated.session_detour "a bé" Hook.acceptAll none admitted hunknown astray
  rw [hsession] at hstart
  obtain ⟨hf, hknown⟩ := Prod.mk.inj (Option.some.inj hstart)
  obtain ⟨shown, away, haway, hanswers, hframe, _, hback⟩ := hdetour hf
  obtain ⟨rest, final, _, hlong, hshort⟩ := hback 0 [.next, .next, .next] (by decide)
  exact ⟨wordTable_validated, admitted, hunknown, astray, seen, s, shown, away, rest, final,
    hsession, hf, hknown, haway, hanswers, hframe, hlong, hshort⟩

end Munch
