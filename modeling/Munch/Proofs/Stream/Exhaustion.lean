import Munch.Proofs.Stream.Ending

/-!
# Streams run dry

A stream that is asked for one token after the other yields results for a while and then nothing
any more, whatever cycles the automaton has.

* `TokenStream.budget` — how many results a stream may still yield: one for each character that is
  left and one more, for an empty token or the report of an unknown mode; none once it is finished.
* `NextStep.budget_lt` — every result uses the budget up. `NextStep.finished_of_none` — a request
  that yields nothing leaves the stream finished.
* `Run.answers_next` — so the results of a run come first and are bounded by the budget.
  `Run.cursor_of_none` — where nothing is yielded in a known mode, the text has been read.
  `Run.unknownMode` — an unknown mode is reported once, and nothing moves.
* `Table.Validated.session_runs_dry` — the same for sessions over a validated table, from whatever
  stream they have reached.
-/

namespace Munch

/-- The result that an answer brings. -/
def Answer.result? : Answer → Option (Yield Match)
  | .item yielded => yielded
  | _ => none

/-- The results of a run, in order. -/
def resultsOf (observations : List Observation) : List (Yield Match) :=
  observations.filterMap (·.answer.result?)

variable {η : Type} {s s' : TokenStream TextSource η} {calls : List Invocation}

/-- How many results the stream may still yield. -/
def TokenStream.budget (s : TokenStream TextSource η) : Nat :=
  if s.finished then 0 else s.matcher.source.place.behind.length + 1

/-! ## One request -/

/-- A token takes its part away from the unread text, and only an empty token takes nothing. -/
theorem exists_behind_token {state : StateId} {found : Match}
    (ho : s.matcher.strategy.outcome (s.matcher.tried state) = .emitted found) :
    ∃ part, s.matcher.source.place.behind =
        part ++ (s.matcher.afterCalls (s.matcher.tried state)).source.place.behind ∧
      (found.isEmpty = false → part ≠ []) := by
  obtain ⟨last, hlast, rfl⟩ := getLast?_of_outcome ho
  obtain ⟨hstart, x, y, htext, hstop, _⟩ :=
    Matcher.offered_of_mem_tried (List.mem_of_getLast? hlast)
  have hrest : restOf s.matcher.cursor (s.matcher.tried state) =
      s.matcher.source.place.offset + Text.width x := by
    rw [restOf, hlast]
    exact hstop
  have hbehind : (s.matcher.afterCalls (s.matcher.tried state)).source.place.behind = y := by
    show (s.matcher.source.seek (restOf s.matcher.cursor (s.matcher.tried state))).place.behind = y
    rw [hrest]
    exact (TextSource.seek_behind htext).2
  refine ⟨x, by rw [hbehind, htext], ?_⟩
  rintro hfound rfl
  have hempty : last.offered.isEmpty = true := by
    refine decide_eq_true (Nat.le_of_eq ?_)
    rw [Text.width_nil, Nat.add_zero] at hstop
    exact hstop.trans hstart.symm
  rw [hempty] at hfound
  cases hfound

/-- **Every result uses the budget up.** -/
theorem NextStep.budget_lt {result : Yield Match} (h : NextStep s calls (some result) s') :
    s'.budget < s.budget := by
  cases h with
  | unknownMode hf => simp [TokenStream.budget, hf]
  | @token state found hf _ ho =>
    obtain ⟨part, hbehind, hpart⟩ := exists_behind_token ho
    cases hempty : found.isEmpty with
    | true =>
      -- the stream is finished, however many characters are left
      simp [TokenStream.budget, hf]
    | false =>
      have hpos := List.length_pos_iff.2 (hpart hempty)
      have hlength := congrArg List.length hbehind
      rw [List.length_append] at hlength
      simp only [TokenStream.budget, hf, Bool.false_eq_true, if_false]
      omega
  | @skipped _ _ c rest hf _ _ hc =>
    have hbehind : s.matcher.source.place.behind = [c] ++ rest := hc
    have hover := (TextSource.seek_behind hbehind).2
    rw [Text.width_cons, Text.width_nil, Nat.add_zero] at hover
    change (s.matcher.source.seek (s.offset + c.utf8Size)).place.behind = rest at hover
    simp [TokenStream.budget, hf, hover, hc]

theorem NextStep.finished_of_none (h : NextStep s calls none s') : s'.finished = true := by
  cases h with
  | idle hf => exact hf
  | ended => rfl

theorem NextStep.mode_eq {item : Option (Yield Match)} (h : NextStep s calls item s') :
    s'.mode = s.mode := by
  cases h <;> rfl

/-! ## Request after request -/

variable {n : Nat} {observations : List Observation}

/-- What a stream shows that yields nothing and does not move. -/
def TokenStream.idling (s : TokenStream TextSource η) : Observation :=
  ⟨.item none, s.offset, s.mode, []⟩

theorem Run.idling (h : Run s (List.replicate n .next) observations s')
    (hf : s.finished = true) : observations = List.replicate n s.idling := by
  induction n generalizing s observations with
  | zero => cases h; rfl
  | succ n ih =>
    cases h with
    | cons step run =>
      cases step with
      | next hnext =>
        obtain ⟨rfl, rfl, rfl⟩ := hnext.idle_of_finished hf
        rw [ih run hf]
        rfl

theorem resultsOf_idling (s : TokenStream TextSource η) (n : Nat) :
    resultsOf (List.replicate n s.idling) = [] := by
  refine List.filterMap_eq_nil_iff.2 fun o ho => ?_
  rw [List.eq_of_mem_replicate ho]
  rfl

/-- **All results come first, and there are no more of them than the budget allows.** -/
theorem Run.answers_next (h : Run s (List.replicate n .next) observations s') :
    (∃ idle, observations.map (·.answer) =
        (resultsOf observations).map (fun r => .item (some r)) ++
          List.replicate idle (.item none)) ∧
      (resultsOf observations).length ≤ s.budget := by
  induction n generalizing s observations with
  | zero =>
    cases h
    exact ⟨⟨0, rfl⟩, Nat.zero_le _⟩
  | succ n ih =>
    cases h with
    | @cons _ s₁ _ _ _ calls answer later step run =>
      cases step with
      | @next _ item _ hnext =>
        cases item with
        | none =>
          -- the stream is finished, and nothing follows
          have hlater := run.idling hnext.finished_of_none
          have hnone : resultsOf (⟨.item none, s₁.offset, s₁.mode, calls⟩ :: later) = [] := by
            rw [hlater]
            exact resultsOf_idling s₁ n
          rw [hnone, hlater]
          exact ⟨⟨n + 1, by simp [TokenStream.idling, List.replicate_succ]⟩, Nat.zero_le _⟩
        | some r =>
          obtain ⟨⟨idle, hanswers⟩, hlength⟩ := ih run
          have hless := hnext.budget_lt
          have hmore : resultsOf (⟨.item (some r), s₁.offset, s₁.mode, calls⟩ :: later) =
            r :: resultsOf later := rfl
          rw [hmore, List.map_cons, hanswers, List.length_cons]
          exact ⟨⟨idle, rfl⟩, by omega⟩

/-- Where nothing is yielded in a known mode, the text has been read. -/
theorem Run.cursor_of_none (h : Run s (List.replicate n .next) observations s')
    (settled : s.Settled) (hknown : (s.matcher.automaton.startState? s.mode).isSome = true) :
    ∀ o ∈ observations, o.answer = .item none →
      o.cursor = Text.width s.matcher.source.place.text := by
  induction n generalizing s observations with
  | zero => cases h; exact fun _ ho => nomatch ho
  | succ n ih =>
    cases h with
    | @cons _ s₁ _ _ _ calls answer later step run =>
      have driving : Request.next.Driving := trivial
      have hsame := step.sameSetting
      have hmode : s₁.mode = s.mode := by
        cases step with
        | next hnext => exact hnext.mode_eq
      rw [← hmode] at hknown
      refine List.forall_mem_cons.2 ⟨fun hanswer => ?_, ?_⟩
      · have hend : answer.isEnd = true := congrArg Answer.isEnd hanswer
        have hread := (step.finished_of_isEnd driving settled hend hknown).2
        rw [TokenStream.AtEnd, hsame.text_eq] at hread
        exact hread
      · rw [← hsame.automaton_eq] at hknown
        rw [← hsame.text_eq]
        exact ih run (step.settled driving settled) hknown

/-- **An unknown mode is reported once, and nothing moves.** -/
theorem Run.unknownMode (h : Run s (List.replicate (n + 1) .next) observations s')
    (hf : s.finished = false) (hm : s.matcher.automaton.startState? s.mode = none) :
    observations = ⟨.item (some (.error (.unknownMode s.mode))), s.offset, s.mode, []⟩ ::
      List.replicate n s.idling := by
  cases h with
  | cons step run =>
    cases step with
    | next hnext =>
      cases hnext with
      | idle htrue => simp [hf] at htrue
      | unknownMode =>
        rw [run.idling rfl]
        rfl
      | token _ hsome => simp [hm] at hsome
      | skipped _ hsome => simp [hm] at hsome
      | ended _ hsome => simp [hm] at hsome

/-! ## Sessions -/

/-- What is seen of a stream that is asked again and again for the next token, over a text that ends
at `stop`. -/
structure RunsDry (s : TokenStream TextSource η) (stop : Nat) (observations : List Observation) :
    Prop where
  /-- First come all the results, then nothing any more. -/
  answers : ∃ idle, observations.map (·.answer) =
    (resultsOf observations).map (fun r => .item (some r)) ++ List.replicate idle (.item none)
  /-- There is at most one result for each character left, and one more. -/
  bound : (resultsOf observations).length ≤ s.matcher.source.place.behind.length + 1
  /-- In a known mode nothing is held back: when there is no result any more, the text is read. -/
  consumed : s.finished = false → (s.matcher.automaton.startState? s.mode).isSome = true →
    ∀ o ∈ observations, o.answer = .item none → o.cursor = stop
  /-- An unknown mode is reported once, and nothing is read. -/
  unknownMode : s.finished = false → s.matcher.automaton.startState? s.mode = none →
    observations ≠ [] → resultsOf observations = [.error (.unknownMode s.mode)] ∧
      ∀ o ∈ observations, o.cursor = s.offset

theorem Run.runsDry (h : Run s (List.replicate n .next) observations s') :
    RunsDry s (Text.width s.matcher.source.place.text) observations := by
  obtain ⟨hanswers, hbudget⟩ := h.answers_next
  refine ⟨hanswers, Nat.le_trans hbudget ?_, ?_, ?_⟩
  · unfold TokenStream.budget
    split
    · exact Nat.zero_le _
    · exact Nat.le_refl _
  · intro hf hknown
    exact h.cursor_of_none (fun htrue => by simp [hf] at htrue) hknown
  · intro hf hm hsome
    cases n with
    | zero =>
      cases h
      exact absurd rfl hsome
    | succ n =>
      obtain rfl := h.unknownMode hf hm
      refine ⟨congrArg (_ :: ·) (resultsOf_idling s n), List.forall_mem_cons.2 ⟨rfl, ?_⟩⟩
      intro o ho
      rw [List.eq_of_mem_replicate ho]
      rfl

variable {t : Table}

/-- **Every stream runs dry.** Over a validated table with any cycles, whatever the hook, the
strategy and the requests made before, the stream is asked `n` times for the next token. It answers
every time: with at most one result for each character left and one more, and then with nothing. In
a known mode, a stream that was not finished has then read its text; in an unknown mode it yields
the report of the mode only and does not move. -/
theorem Table.Validated.session_runs_dry (valid : t.Validated) (input : String) (hook : Hook η)
    (forced : Option Strategy) {before : List Request}
    (admitted : ∀ request ∈ before, request.Admitted t.rows.size) (n : Nat) :
    ∃ seen s shown final,
      t.session input hook forced before = .ok (seen, s) ∧
      t.session input hook forced (before ++ List.replicate n .next) = .ok (seen ++ shown, final) ∧
      shown.length = n ∧ RunsDry s (Text.width input.toList) shown := by
  obtain ⟨seen, s, hsession, run⟩ := valid.session_run input hook forced admitted
  obtain ⟨shown, final, rest⟩ := exists_run (List.replicate n .next) s
  refine ⟨seen, s, shown, final, hsession, ?_, ?_, ?_⟩
  · refine (run.append rest).serve_eq (valid.ready rfl) rfl
      (List.forall_mem_append.2 ⟨admitted, ?_⟩)
    intro request hrequest
    rw [List.eq_of_mem_replicate hrequest]
    trivial
  · rw [rest.length_eq, List.length_replicate]
  · have hdry := rest.runsDry
    rw [run.sameSetting.text_eq] at hdry
    exact hdry

/-- Behind a detour through an unknown mode and back at the start of the text there are a letter, a
wide character that no rule accepts, and a token for the end of the input. -/
theorem session_runs_dry_wordTable :
    let before := [.next, .setMode 5, .next, .next, .setMode 0, .setOffset 0]
    wordTable.Validated ∧ (∀ request ∈ before, request.Admitted wordTable.rows.size) ∧
      ∃ seen s shown final,
        wordTable.session "aé" Hook.acceptAll none before = .ok (seen, s) ∧
        wordTable.session "aé" Hook.acceptAll none (before ++ List.replicate 9 .next) =
          .ok (seen ++ shown, final) ∧
        shown.length = 9 ∧ RunsDry s 3 shown ∧
        s.finished = false ∧ s.mode = 0 ∧ s.matcher.source.place.behind.length = 2 := by
  intro before
  have admitted : ∀ request ∈ before, request.Admitted wordTable.rows.size := by decide
  have hstart : (wordTable.session "aé" Hook.acceptAll none before).toOption.map (fun r =>
      (r.2.finished, r.2.mode, r.2.matcher.source.place.behind.length)) = some (false, 0, 2) := by
    decide +kernel
  obtain ⟨seen, s, shown, final, hsession, hlonger, hlength, hdry⟩ :=
    wordTable_validated.session_runs_dry "aé" Hook.acceptAll none admitted 9
  rw [hsession] at hstart
  obtain ⟨hf, hrest⟩ := Prod.mk.inj (Option.some.inj hstart)
  obtain ⟨hmode, hleft⟩ := Prod.mk.inj hrest
  exact ⟨wordTable_validated, admitted, seen, s, shown, final, hsession, hlonger, hlength, hdry, hf,
    hmode, hleft⟩

end Munch
