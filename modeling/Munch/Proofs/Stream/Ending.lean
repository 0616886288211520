import Munch.Proofs.Stream.Tiling

/-!
# Streams that have ended

A stream ends at the end of its text: nothing is left, or an empty token is yielded. A flag records
that, and the same flag records that an unknown mode has been reported.

* `TokenStream.Settled` — a stream that is finished in a known mode stands at the end of its text.
  `Step.settled` — every step keeps this.
* `Step.finished` — a step leaves a finished stream finished, unless it switches the mode while the
  mode is unknown: the switch takes the flag for the report of the unknown mode and clears it.
* `leavesUnknown` — some switch of a session is made in an unknown mode.
* `Table.Validated.session_stays_ended` — without such a switch, nothing is yielded by a stream that
  has ended. In any case what is yielded then is empty.
* `session_revived_wordTable` — a detour through an unknown mode makes a stream that has ended yield
  its last token once more.
-/

namespace Munch

/-- The token that an answer yields. -/
def Answer.token? : Answer → Option Match
  | .item (some (.ok found)) => some found
  | _ => none

/-- Whether an answer ends a stream in a known mode: there is nothing more, or an empty token. -/
def Answer.isEnd : Answer → Bool
  | .item none => true
  | .item (some (.ok found)) => found.isEmpty
  | _ => false

/-- Whether an answer acknowledges a request that yields nothing, such as a switch of the mode. -/
def Answer.isDone : Answer → Bool
  | .done => true
  | _ => false

/-- A request to the stream has ended it, in a mode that the table knows. -/
def Observation.ended (t : Table) (o : Observation) : Bool :=
  o.answer.isEnd && (t.startState? o.mode).isSome

/-- Whether an empty token was yielded. -/
def Observation.emptyToken (o : Observation) : Bool := o.answer.token?.any (·.isEmpty)

/-- Whether some switch is made while the mode is unknown; at first the mode is `mode`. -/
def leavesUnknown (t : Table) : Nat → List Observation → Bool
  | _, [] => false
  | mode, o :: rest =>
    (o.answer.isDone && (t.startState? mode).isNone) || leavesUnknown t o.mode rest

/-! ## One step -/

variable {η : Type} {s s' : TokenStream TextSource η} {calls : List Invocation} {answer : Answer}

/-- The stream has read its whole text. -/
def TokenStream.AtEnd (s : TokenStream TextSource η) : Prop :=
  s.offset = Text.width s.matcher.source.place.text

/-- A stream that is finished in a known mode stands at the end of its text. -/
def TokenStream.Settled (s : TokenStream TextSource η) : Prop :=
  s.finished = true → (s.matcher.automaton.startState? s.mode).isSome = true → s.AtEnd

theorem Text.le_of_slice? {text part : List Char} {start stop : Nat}
    (h : Text.slice? text start stop = some part) : start ≤ stop ∧ stop ≤ Text.width text := by
  obtain ⟨a, b, rfl, rfl, rfl⟩ := Text.slice?_eq_some_iff.1 h
  simp only [Text.width_append]
  omega

/-- Behind the end there is nothing to account for. -/
theorem Answer.Accounts.stop_eq {text : List Char} {stop : Nat}
    (h : answer.Accounts text (Text.width text) stop) : stop = Text.width text := by
  cases h with
  | still => rfl
  | moved _ _ slice =>
    have hle := Text.le_of_slice? slice
    omega

/-- A token covers the way of the cursor. -/
theorem Answer.Accounts.span_eq {text : List Char} {start stop : Nat} {found : Match}
    (h : answer.Accounts text start stop) (ht : answer.token? = some found) :
    found.span = ⟨start, stop⟩ ∧ (found.isEmpty = true → stop = Text.width text) := by
  have hpiece : answer.piece? = some found.span := by
    unfold Answer.token? at ht
    split at ht
    · cases ht; rfl
    · cases ht
  cases h with
  | still hnone =>
    rw [hnone] at hpiece
    cases hpiece
  | moved part hsome slice _ hempty =>
    rw [hsome] at hpiece
    have hspan : found.span = ⟨start, stop⟩ := (Option.some.inj hpiece).symm
    refine ⟨hspan, fun h => (hempty ?_).2⟩
    have hle : stop ≤ start := by simpa [Match.isEmpty, Span.isEmpty, hspan] using h
    have := (Text.le_of_slice? slice).1
    omega

theorem Step.atEnd {request : Request} (driving : request.Driving)
    (h : Step s request calls answer s') (hs : s.AtEnd) : s'.AtEnd := by
  have haccounts := h.accounts driving
  rw [TokenStream.AtEnd] at hs
  rw [hs] at haccounts
  rw [TokenStream.AtEnd, h.sameSetting.text_eq]
  exact haccounts.stop_eq

/-- What ends a stream in a known mode leaves it finished and at the end of its text. -/
theorem Step.finished_of_isEnd {request : Request} (driving : request.Driving)
    (h : Step s request calls answer s') (settled : s.Settled) (hend : answer.isEnd = true)
    (hknown : (s.matcher.automaton.startState? s'.mode).isSome = true) :
    s'.finished = true ∧ s'.AtEnd := by
  have haccounts := h.accounts driving
  cases h with
  | next h =>
    cases h with
    | idle hf => exact ⟨hf, settled hf hknown⟩
    | unknownMode => cases hend
    | token hf hm ho =>
      refine ⟨hend, ?_⟩
      rw [TokenStream.AtEnd, Matcher.text_afterCalls]
      exact (haccounts.span_eq rfl).2 hend
    | skipped => cases hend
    | ended _ _ _ hc => exact ⟨rfl, TextSource.offset_of_behind_nil hc⟩
  | setMode => cases hend
  | setOffset => exact driving.elim
  | position => exact driving.elim
  | scan => exact driving.elim
  | setCursor => exact driving.elim

theorem Step.settled {request : Request} (driving : request.Driving)
    (h : Step s request calls answer s') (settled : s.Settled) : s'.Settled := by
  intro hf hknown
  have hautomaton := h.sameSetting.automaton_eq
  rw [hautomaton] at hknown
  have hended := h.finished_of_isEnd driving settled
  cases h with
  | next h =>
    cases h with
    | idle => exact settled hf hknown
    | unknownMode _ hm =>
      rw [hm] at hknown
      cases hknown
    | token _ _ ho => exact (hended hf hknown).2
    | skipped hfalse =>
      rw [hfalse] at hf
      cases hf
    | ended => exact (hended rfl hknown).2
  | setMode mode =>
    -- the flag survives only where the mode so far was known
    obtain ⟨hf, hknown⟩ := Bool.and_eq_true_iff.1 hf
    exact settled hf hknown
  | setOffset => exact driving.elim
  | position => exact driving.elim
  | scan => exact driving.elim
  | setCursor => exact driving.elim

/-- A finished stream yields nothing, and only a switch in an unknown mode lets it go on. -/
theorem Step.finished {request : Request} (driving : request.Driving)
    (h : Step s request calls answer s') (hf : s.finished = true) :
    (answer = .done ∨ answer = .item none) ∧
      ((answer.isDone && (s.matcher.automaton.startState? s.mode).isNone) = false →
        s'.finished = true) := by
  cases h with
  | next h =>
    obtain ⟨rfl, rfl, rfl⟩ := h.idle_of_finished hf
    exact ⟨Or.inr rfl, fun _ => hf⟩
  | setMode mode =>
    refine ⟨Or.inl rfl, fun hstays => ?_⟩
    simpa [Answer.isDone, hf, Option.isSome_iff_ne_none] using hstays
  | setOffset => exact driving.elim
  | position => exact driving.elim
  | scan => exact driving.elim
  | setCursor => exact driving.elim

theorem Step.finished_of_emptyToken {request : Request} (h : Step s request calls answer s')
    (hempty : answer.token?.any (·.isEmpty) = true) : s'.finished = true := by
  cases h with
  | next h =>
    cases h with
    | token => exact hempty
    | _ => cases hempty
  | _ => cases hempty

/-! ## Runs -/

variable {t : Table} {requests : List Request} {observations : List Observation}

theorem Run.settled (h : Run s requests observations s')
    (driving : ∀ request ∈ requests, request.Driving) (settled : s.Settled) : s'.Settled := by
  induction h with
  | nil => exact settled
  | cons step _ ih =>
    exact ih (fun r hr => driving r (List.mem_cons_of_mem _ hr))
      (step.settled (driving _ List.mem_cons_self) settled)

/-- Once a stream has read its text, it only yields empty tokens. -/
theorem Run.span_eq_of_atEnd (h : Run s requests observations s')
    (driving : ∀ request ∈ requests, request.Driving) (hs : s.AtEnd) :
    let stop := Text.width s.matcher.source.place.text
    ∀ o ∈ observations, ∀ found, o.answer.token? = some found → found.span = ⟨stop, stop⟩ := by
  induction h with
  | nil => intro _ o ho; cases ho
  | cons step _ ih =>
    intro stop
    have hdriving := driving _ List.mem_cons_self
    have hs' := step.atEnd hdriving hs
    have hrest := ih (fun r hr => driving r (List.mem_cons_of_mem _ hr)) hs'
    have haccounts := step.accounts hdriving
    rw [TokenStream.AtEnd] at hs hs'
    rw [step.sameSetting.text_eq] at hs' hrest
    rw [hs, hs'] at haccounts
    exact List.forall_mem_cons.2 ⟨fun found hfound => (haccounts.span_eq hfound).1, hrest⟩

/-- **A finished stream yields nothing as long as no switch is made in an unknown mode.** -/
theorem Run.finished (h : Run s requests observations s')
    (ht : s.matcher.automaton = t.automaton) (driving : ∀ request ∈ requests, request.Driving)
    (hf : s.finished = true) (hstays : leavesUnknown t s.mode observations = false) :
    s'.finished = true ∧ ∀ o ∈ observations, o.answer.token? = none := by
  induction h with
  | nil => exact ⟨hf, fun _ ho => nomatch ho⟩
  | cons step _ ih =>
    obtain ⟨hfirst, hrest⟩ := Bool.or_eq_false_iff.1 hstays
    obtain ⟨hanswer, hgoes⟩ := step.finished (driving _ List.mem_cons_self) hf
    rw [ht] at hgoes
    obtain ⟨hfinal, hlater⟩ := ih (step.sameSetting.automaton_eq.trans ht)
      (fun r hr => driving r (List.mem_cons_of_mem _ hr)) (hgoes hfirst) hrest
    refine ⟨hfinal, List.forall_mem_cons.2 ⟨?_, hlater⟩⟩
    rcases hanswer with rfl | rfl <;> rfl

theorem Run.countP_emptyToken_le (h : Run s requests observations s')
    (ht : s.matcher.automaton = t.automaton) (driving : ∀ request ∈ requests, request.Driving)
    (hstays : leavesUnknown t s.mode observations = false) :
    observations.countP (·.emptyToken) ≤ 1 := by
  induction h with
  | nil => exact Nat.zero_le _
  | @cons s s₁ _ request rest calls answer later step run ih =>
    have hautomaton := step.sameSetting.automaton_eq.trans ht
    have hdriving : ∀ request ∈ rest, request.Driving :=
      fun r hr => driving r (List.mem_cons_of_mem _ hr)
    obtain ⟨_, hrest⟩ := Bool.or_eq_false_iff.1 hstays
    rw [List.countP_cons]
    split
    · -- the stream is finished now, and what follows holds no token at all
      rename_i hempty
      have hfinished := step.finished_of_emptyToken hempty
      have hnone := (run.finished hautomaton hdriving hfinished hrest).2
      have hzero : later.countP (·.emptyToken) = 0 := by
        rw [List.countP_eq_zero]
        intro o ho
        simp [Observation.emptyToken, hnone o ho]
      omega
    · exact ih hautomaton hdriving hrest

/-- What a stream yields once a request has ended it. -/
theorem Run.later_of_ended {ended later : Observation} {between rest : List Observation}
    (h : Run s requests (ended :: (between ++ later :: rest)) s')
    (ht : s.matcher.automaton = t.automaton) (driving : ∀ request ∈ requests, request.Driving)
    (settled : s.Settled) (hended : ended.ended t = true) :
    let stop := Text.width s.matcher.source.place.text
    (leavesUnknown t ended.mode between = false →
        later.answer = .done ∨ later.answer = .item none) ∧
      ∀ found, later.answer.token? = some found → found.span = ⟨stop, stop⟩ := by
  intro stop
  obtain ⟨hend, hknown⟩ := Bool.and_eq_true_iff.1 hended
  cases h with
  | @cons _ s₁ _ _ requests₁ _ _ _ step run =>
    obtain ⟨hfirst, driving₁⟩ := List.forall_mem_cons.1 driving
    rw [show t.startState? = s.matcher.automaton.startState? by rw [ht]; rfl] at hknown
    obtain ⟨hf, hs₁⟩ := step.finished_of_isEnd hfirst settled hend hknown
    have ht₁ := step.sameSetting.automaton_eq.trans ht
    have hspans := run.span_eq_of_atEnd driving₁ hs₁
    rw [step.sameSetting.text_eq] at hspans
    refine ⟨fun hstays => ?_, hspans later (by simp)⟩
    obtain ⟨s₂, requests₂, requests₃, rfl, run₂, run₃⟩ := run.split
    obtain ⟨driving₂, driving₃⟩ := List.forall_mem_append.1 driving₁
    have hf₂ := (run₂.finished ht₁ driving₂ hf hstays).1
    cases run₃ with
    | cons step₃ _ => exact (step₃.finished (driving₃ _ List.mem_cons_self) hf₂).1

/-- **A stream that has ended is not revived by switches between known modes.** Once a request for
the next token has ended the stream in a known mode, nothing is yielded any more unless the mode is
switched while it is unknown; so there is at most one empty token. Even behind such a switch every
token is empty and stands at the end of the text. -/
theorem Table.Validated.session_stays_ended (valid : t.Validated) (input : String) (hook : Hook η)
    (forced : Option Strategy) (driving : ∀ request ∈ requests, request.Driving) :
    ∃ observations final, t.session input hook forced requests = .ok (observations, final) ∧
      (∀ before ended between later rest,
        observations = before ++ ended :: (between ++ later :: rest) → ended.ended t = true →
          (leavesUnknown t ended.mode between = false →
            later.answer = .done ∨ later.answer = .item none) ∧
          ∀ found, later.answer.token? = some found →
            found.span = ⟨Text.width input.toList, Text.width input.toList⟩) ∧
      (leavesUnknown t 0 observations = false → observations.countP (·.emptyToken) ≤ 1) := by
  have admitted : ∀ request ∈ requests, request.Admitted t.rows.size :=
    fun r hr => (driving r hr).admitted _
  obtain ⟨observations, final, hsession, run⟩ := valid.session_run input hook forced admitted
  refine ⟨observations, final, hsession, ?_, run.countP_emptyToken_le rfl driving⟩
  rintro before ended between later rest rfl hended
  obtain ⟨s₀, requests₀, requests₁, rfl, run₀, run₁⟩ := run.split
  obtain ⟨driving₀, driving₁⟩ := List.forall_mem_append.1 driving
  have settled : s₀.Settled := run₀.settled driving₀ (fun hf => nomatch hf)
  have hlater := run₁.later_of_ended run₀.sameSetting.automaton_eq driving₁ settled hended
  rw [run₀.sameSetting.text_eq] at hlater
  exact hlater

/-- Two words with a blank between them, a switch to a known mode, the end of the text and a switch
to an unknown mode. -/
theorem session_stays_ended_wordTable :
    let requests := [.next, .next, .next, .setMode 0, .next, .setMode 5, .next]
    (∀ request ∈ requests, request.Driving) ∧ wordTable.Validated ∧
      ∃ observations final,
        wordTable.session "a b" Hook.acceptAll none requests = .ok (observations, final) ∧
        (observations.any (·.ended wordTable)) = true ∧
        leavesUnknown wordTable 0 observations = false ∧
        observations.countP (·.emptyToken) ≤ 1 := by
  intro requests
  have driving : ∀ request ∈ requests, request.Driving := by decide
  have hrun : (wordTable.session "a b" Hook.acceptAll none requests).toOption.map (fun r =>
      (r.1.any (·.ended wordTable), leavesUnknown wordTable 0 r.1)) = some (true, false) := by
    decide +kernel
  obtain ⟨observations, final, hsession, _, hcount⟩ :=
    wordTable_validated.session_stays_ended "a b" Hook.acceptAll none driving
  rw [hsession] at hrun
  obtain ⟨hended, hleaves⟩ := Prod.mk.inj (Option.some.inj hrun)
  exact ⟨driving, wordTable_validated, observations, final, hsession, hended, hleaves,
    hcount hleaves⟩

/-- **A detour through an unknown mode revives a stream.** The second request ends the stream with
an empty token in a known mode; behind the detour the fifth yields the same token again. -/
theorem session_revived_wordTable :
    wordTable.Validated ∧ ∃ word ended away back revived final,
      wordTable.session "ab" Hook.acceptAll none [.next, .next, .setMode 5, .setMode 0, .next] =
        .ok ([word, ended, away, back, revived], final) ∧
      ended.ended wordTable = true ∧ ended.answer.token? = some ⟨⟨1⟩, ⟨2, 2⟩⟩ ∧
      revived.answer.token? = some ⟨⟨1⟩, ⟨2, 2⟩⟩ := by
  have hrun : (wordTable.session "ab" Hook.acceptAll none
      [.next, .next, .setMode 5, .setMode 0, .next]).toOption.map (fun r =>
        r.1.map fun o => (o.answer.token?, o.ended wordTable)) =
      some [(some ⟨⟨0⟩, ⟨0, 2⟩⟩, false), (some ⟨⟨1⟩, ⟨2, 2⟩⟩, true), (none, false), (none, false),
        (some ⟨⟨1⟩, ⟨2, 2⟩⟩, true)] := by decide +kernel
  refine ⟨wordTable_validated, ?_⟩
  cases hsession : wordTable.session "ab" Hook.acceptAll none
      [.next, .next, .setMode 5, .setMode 0, .next] with
  | error fault =>
    rw [hsession] at hrun
    cases hrun
  | ok r =>
    rw [hsession] at hrun
    obtain ⟨observations, final⟩ := r
    replace hrun := Option.some.inj hrun
    simp only [List.map_eq_cons_iff, List.map_eq_nil_iff] at hrun
    obtain ⟨word, _, rfl, _, ended, _, rfl, hended, away, _, rfl, _, back, _, rfl, _,
      revived, _, rfl, hrevived, rfl⟩ := hrun
    obtain ⟨htoken, hended⟩ := Prod.mk.inj hended
    exact ⟨word, ended, away, back, revived, final, rfl, hended, htoken, (Prod.mk.inj hrevived).1⟩

end Munch
