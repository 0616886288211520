import Munch.Proofs.Stream.Tiling

/-!
# Tokens depend on the rest of the text only

A stream that stands behind some leading part of a text does what a stream over the rest of the text
does. Offsets are all that differs, by the width of the leading part.

* `shift`, for everything that holds offsets — the same, so many bytes further on. `Hook.shifted` —
  the hook that sees every match shifted.
* `Matcher.Behind` — a matcher and one that reads the same rest of a text behind a leading part.
  `Matcher.Behind.tried` — their scans make the same calls, up to the shift.
* `TokenStream.Behind` — the same for streams. `Step.behind`, `Run.behind` — steps and runs of the
  one stream are steps and runs of the other.
* `Table.Validated.session_suffix` — a session over the end of a text is a session over that end
  alone.
-/

namespace Munch

/-! ## Shifts -/

/-- The span, `n` bytes further on. -/
def Span.shift (n : Nat) (s : Span) : Span := ⟨s.start + n, s.stop + n⟩

/-- The match, `n` bytes further on. -/
def Match.shift (n : Nat) (m : Match) : Match := { m with span := m.span.shift n }

/-- The visit, `n` bytes further on. -/
def Visit.shift (n : Nat) (v : Visit) : Visit := { v with offset := v.offset + n }

/-- The candidate, `n` bytes further on. -/
def Candidate.shift (n : Nat) (c : Candidate) : Candidate := { c with stop := c.stop + n }

/-- The offer, `n` bytes further on. -/
def Offer.shift (n : Nat) (o : Offer) : Offer := { o with found := o.found.shift n }

/-- The call, `n` bytes further on. -/
def Invocation.shift (n : Nat) (call : Invocation) : Invocation :=
  { call with offered := call.offered.shift n, cursor := call.cursor + n }

/-- The outcome, `n` bytes further on. -/
def Outcome.shift (n : Nat) : Outcome → Outcome
  | .emitted found => .emitted (found.shift n)
  | .missed why => .missed why

/-- The error, `n` bytes further on. -/
def StreamError.shift (n : Nat) : StreamError → StreamError
  | .unrecognizedCharacter character offset => .unrecognizedCharacter character (offset + n)
  | .unknownMode mode => .unknownMode mode

/-- The token or error, `n` bytes further on. -/
def Yield.shift (n : Nat) : Yield Match → Yield Match
  | .ok found => .ok (found.shift n)
  | .error cause => .error (cause.shift n)

/-- The answer, `n` bytes further on; lines and columns stay. -/
def Answer.shift (n : Nat) : Answer → Answer
  | .item yielded => .item (yielded.map (Yield.shift n))
  | .outcome result => .outcome (result.shift n)
  | .position p => .position p
  | .done => .done

/-- What is observed, `n` bytes further on. -/
def Observation.shift (n : Nat) (o : Observation) : Observation where
  answer := o.answer.shift n
  cursor := o.cursor + n
  mode := o.mode
  calls := o.calls.map (·.shift n)

/-- The hook that sees every match `n` bytes further on. -/
def Hook.shifted {η : Type} (n : Nat) (hook : Hook η) : Hook η where
  state := hook.state
  react state action found := hook.react state action (found.shift n)

theorem Match.isEmpty_shift (n : Nat) (m : Match) : (m.shift n).isEmpty = m.isEmpty := by
  simp [Match.isEmpty, Span.isEmpty, Match.shift, Span.shift]

/-! ## One scan -/

theorem entered_shift (next : StateId → Option Char → Option StateId) (text : List Char)
    (state : StateId) (offset n : Nat) :
    entered next text state (offset + n) = (entered next text state offset).map (·.shift n) := by
  induction text generalizing state offset with
  | nil =>
    rw [entered, entered]
    cases next state none <;> rfl
  | cons c rest ih =>
    rw [entered, entered]
    cases next state (some c) with
    | none => rfl
    | some target =>
      have hoffset : offset + n + c.utf8Size = offset + c.utf8Size + n := by omega
      simp only [hoffset, ih]
      rfl

theorem candidatesOf_shift (accepting : StateId → List SymbolId) (visits : List Visit) (n : Nat) :
    candidatesOf accepting (visits.map (·.shift n)) =
      (candidatesOf accepting visits).map (·.shift n) := by
  have hone : ∀ v : Visit,
      (v.shift n).candidates accepting = (v.candidates accepting).map (·.shift n) := by
    intro v
    simp only [Visit.candidates, List.map_map]
    rfl
  simp only [candidatesOf, ← List.map_reverse, List.flatMap_map, List.map_flatMap, hone]

theorem untilAccepted_shift (calls : List Invocation) (n : Nat) :
    untilAccepted (calls.map (·.shift n)) = (untilAccepted calls).map (·.shift n) := by
  induction calls with
  | nil => rfl
  | cons call rest ih =>
    cases hv : call.verdict with
    | accept =>
      have hv' : (call.shift n).verdict = .accept := hv
      rw [List.map_cons, untilAccepted_of_accept hv, untilAccepted_of_accept hv']
      rfl
    | reject =>
      have hv' : (call.shift n).verdict = .reject := hv
      rw [List.map_cons, untilAccepted_of_reject hv, untilAccepted_of_reject hv', ih]
      rfl

namespace Strategy

theorem asked_shift (strategy : Strategy) (replies : List Invocation) (n : Nat) :
    strategy.asked (replies.map (·.shift n)) = (strategy.asked replies).map (·.shift n) := by
  cases strategy with
  | greedy => exact List.map_take.symm
  | backtracking => exact untilAccepted_shift replies n

theorem outcome_shift (strategy : Strategy) (calls : List Invocation) (n : Nat) :
    strategy.outcome (calls.map (·.shift n)) = (strategy.outcome calls).shift n := by
  unfold outcome
  rw [List.getLast?_map]
  cases calls.getLast? with
  | none => rfl
  | some last =>
    cases strategy with
    | greedy => rfl
    | backtracking =>
      cases hv : last.verdict <;> simp [Invocation.shift, hv, Outcome.shift]

end Strategy

theorem restOf_shift (start : Nat) (calls : List Invocation) (n : Nat) :
    restOf (start + n) (calls.map (·.shift n)) = restOf start calls + n := by
  unfold restOf
  rw [List.getLast?_map]
  cases calls.getLast? with
  | none => rfl
  | some last => rfl

namespace Hook

variable {η : Type}

theorem replies_shift (hook : Hook η) (offers : List Offer) (n : Nat) :
    hook.replies (offers.map (·.shift n)) =
      ((hook.shifted n).replies offers).map (·.shift n) := by
  induction offers generalizing hook with
  | nil => rfl
  | cons o rest ih =>
    rw [List.map_cons, replies_cons, ih]
    rfl

theorem after_shifted (hook : Hook η) (calls : List Invocation) (n : Nat) :
    (hook.shifted n).after calls = (hook.after (calls.map (·.shift n))).shifted n := by
  induction calls generalizing hook with
  | nil => rfl
  | cons call rest ih =>
    rw [List.map_cons, after_cons, after_cons, ← ih]
    rfl

end Hook

namespace Matcher

variable {η : Type} {lead : List Char} {m m' : Matcher TextSource η}

/-- The second matcher reads behind `lead` what the first one reads. -/
structure Behind (lead : List Char) (m m' : Matcher TextSource η) : Prop where
  automaton_eq : m'.automaton = m.automaton
  strategy_eq : m'.strategy = m.strategy
  hook_eq : m.hook = m'.hook.shifted (Text.width lead)
  text_eq : m'.source.place.text = lead ++ m.source.place.text
  cursor_eq : m'.cursor = m.cursor + Text.width lead

namespace Behind

/-- The same text is left to be read. -/
theorem behind_eq (h : m.Behind lead m') :
    m'.source.place.behind = m.source.place.behind := by
  have htext : m'.source.place.before.reverse ++ m'.source.place.behind =
      (lead ++ m.source.place.before.reverse) ++ m.source.place.behind := by
    rw [List.append_assoc]
    exact h.text_eq
  have hcursor : m'.source.place.offset = m.source.place.offset + Text.width lead := h.cursor_eq
  -- the parts before the two cursors have the same width, and a text is cut there in one way only
  refine (Text.append_inj_of_width htext ?_).2
  rw [Text.width_append, Text.width_reverse, Text.width_reverse, ← m.source.place.offset_eq,
    ← m'.source.place.offset_eq, hcursor, Nat.add_comm]

theorem offers (h : m.Behind lead m') (state : StateId) :
    m'.offers state = (m.offers state).map (·.shift (Text.width lead)) := by
  unfold Matcher.offers candidates
  rw [h.automaton_eq, h.cursor_eq, h.behind_eq, entered_shift, candidatesOf_shift, List.map_map,
    List.map_map]
  rfl

/-- **The scans make the same calls, up to the shift.** -/
theorem tried (h : m.Behind lead m') (state : StateId) :
    m'.tried state = (m.tried state).map (·.shift (Text.width lead)) := by
  unfold Matcher.tried
  rw [h.offers, Hook.replies_shift, ← h.hook_eq, h.strategy_eq, Strategy.asked_shift]

theorem outcome (h : m.Behind lead m') {state : StateId} {result : Outcome}
    (ho : m.strategy.outcome (m.tried state) = result) :
    m'.strategy.outcome (m'.tried state) = result.shift (Text.width lead) := by
  rw [h.tried, h.strategy_eq, Strategy.outcome_shift, ho]

theorem after (h : m.Behind lead m') (state : StateId) :
    m.hook.after (m.tried state) =
      (m'.hook.after (m'.tried state)).shifted (Text.width lead) := by
  rw [h.tried, h.hook_eq, Hook.after_shifted]

theorem afterCalls (h : m.Behind lead m') (state : StateId) :
    (m.afterCalls (m.tried state)).Behind lead (m'.afterCalls (m'.tried state)) where
  automaton_eq := h.automaton_eq
  strategy_eq := h.strategy_eq
  hook_eq := h.after state
  text_eq := by rw [text_afterCalls, text_afterCalls, h.text_eq]
  cursor_eq := by
    rw [cursor_afterCalls_tried, cursor_afterCalls_tried, h.tried, h.cursor_eq, restOf_shift]

/-- Over a character that is skipped. -/
theorem skip (h : m.Behind lead m') {c : Char} {rest : List Char}
    (hc : m.source.place.behind = c :: rest) (state : StateId) :
    Behind lead
      { m with
        source := m.source.seek (m.cursor + c.utf8Size), hook := m.hook.after (m.tried state) }
      { m' with
        source := m'.source.seek (m'.cursor + c.utf8Size)
        hook := m'.hook.after (m'.tried state) } where
  automaton_eq := h.automaton_eq
  strategy_eq := h.strategy_eq
  hook_eq := h.after state
  text_eq := by rw [TextSource.text_seek, TextSource.text_seek, h.text_eq]
  cursor_eq := by
    show (m'.source.seek (m'.source.place.offset + c.utf8Size)).place.offset =
      (m.source.seek (m.source.place.offset + c.utf8Size)).place.offset + Text.width lead
    have hcursor : m'.source.place.offset = m.source.place.offset + Text.width lead := h.cursor_eq
    rw [TextSource.offset_seek_over hc, TextSource.offset_seek_over (h.behind_eq.trans hc), hcursor]
    omega

end Behind

end Matcher

/-! ## Streams -/

variable {η : Type} {lead : List Char} {s s' final : TokenStream TextSource η}

/-- The second stream reads behind `lead` what the first one reads. -/
structure TokenStream.Behind (lead : List Char) (s s' : TokenStream TextSource η) : Prop where
  matcher : s.matcher.Behind lead s'.matcher
  mode_eq : s'.mode = s.mode
  finished_eq : s'.finished = s.finished

theorem TokenStream.Behind.offset_eq (h : s.Behind lead s') :
    s'.offset = s.offset + Text.width lead :=
  h.matcher.cursor_eq

/-- The start state of the mode is the same. -/
theorem TokenStream.Behind.startState?_eq (h : s.Behind lead s') :
    s'.matcher.automaton.startState? s'.mode = s.matcher.automaton.startState? s.mode := by
  rw [h.matcher.automaton_eq, h.mode_eq]

theorem NextStep.behind (behind : s.Behind lead s') {calls : List Invocation}
    {item : Option (Yield Match)} (h : NextStep s calls item final) :
    ∃ final', NextStep s' (calls.map (·.shift (Text.width lead)))
      (item.map (Yield.shift (Text.width lead))) final' ∧ final.Behind lead final' := by
  have hstate := behind.startState?_eq
  have hfinished := behind.finished_eq
  cases h with
  | idle hf => exact ⟨s', .idle (hfinished.trans hf), behind⟩
  | unknownMode hf hm =>
    have step := NextStep.unknownMode (hfinished.trans hf) (hstate.trans hm)
    rw [behind.mode_eq] at step
    exact ⟨_, step, behind.matcher, rfl, rfl⟩
  | @token state found hf hm ho =>
    have ho' := behind.matcher.outcome ho
    have step := NextStep.token (hfinished.trans hf) (hstate.trans hm) ho'
    rw [← behind.matcher.tried]
    exact ⟨_, step, behind.matcher.afterCalls state, behind.mode_eq, found.isEmpty_shift _⟩
  | @skipped state why c rest hf hm ho hc =>
    have ho' := behind.matcher.outcome ho
    have hc' := behind.matcher.behind_eq.trans hc
    have step := NextStep.skipped (hfinished.trans hf) (hstate.trans hm) ho' hc'
    have hitem : Yield.shift (Text.width lead) (.error (.unrecognizedCharacter c s.offset)) =
        .error (.unrecognizedCharacter c s'.offset) := by
      rw [behind.offset_eq]
      rfl
    rw [← behind.matcher.tried, Option.map_some, hitem]
    exact ⟨_, step, behind.matcher.skip hc state, behind.mode_eq, hfinished⟩
  | @ended state why hf hm ho hc =>
    have ho' := behind.matcher.outcome ho
    have hc' := behind.matcher.behind_eq.trans hc
    have step := NextStep.ended (hfinished.trans hf) (hstate.trans hm) ho' hc'
    rw [← behind.matcher.tried]
    exact ⟨_, step, { behind.matcher with hook_eq := behind.matcher.after state },
      behind.mode_eq, rfl⟩

/-- **A step of the one stream is a step of the other, up to the shift.** -/
theorem Step.behind (behind : s.Behind lead s') {request : Request} (driving : request.Driving)
    {calls : List Invocation} {answer : Answer} (h : Step s request calls answer final) :
    ∃ final', Step s' request (calls.map (·.shift (Text.width lead)))
      (answer.shift (Text.width lead)) final' ∧ final.Behind lead final' := by
  cases h with
  | next h =>
    obtain ⟨final', step, hfinal⟩ := h.behind behind
    exact ⟨final', .next step, hfinal⟩
  | setMode mode =>
    refine ⟨_, .setMode mode, behind.matcher, rfl, ?_⟩
    rw [behind.startState?_eq, behind.finished_eq]
  | setOffset => exact driving.elim
  | position => exact driving.elim
  | scan => exact driving.elim
  | setCursor => exact driving.elim

theorem Run.behind {requests : List Request} {observations : List Observation}
    (h : Run s requests observations final) (driving : ∀ request ∈ requests, request.Driving)
    (behind : s.Behind lead s') :
    ∃ final', Run s' requests (observations.map (·.shift (Text.width lead))) final' ∧
      final.Behind lead final' := by
  induction h generalizing s' with
  | nil s => exact ⟨s', .nil s', behind⟩
  | cons step _ ih =>
    obtain ⟨hrequest, hrest⟩ := List.forall_mem_cons.1 driving
    obtain ⟨s₁', step', hnext⟩ := step.behind behind hrequest
    obtain ⟨final', run', hfinal⟩ := ih hrest hnext
    refine ⟨final', ?_, hfinal⟩
    have run := Run.cons step' run'
    rw [hnext.offset_eq, hnext.mode_eq] at run
    exact run

/-! ## Sessions -/

/-- A fresh stream that was moved over the first part of a text. -/
theorem Table.fresh_behind (t : Table) (u v : String) (hook : Hook η) (forced : Option Strategy) :
    (t.fresh v (hook.shifted (Text.width u.toList)) forced).Behind u.toList
      ((t.fresh (u ++ v) hook forced).setOffset (Text.width u.toList)) where
  matcher := {
    automaton_eq := rfl
    strategy_eq := rfl
    hook_eq := rfl
    text_eq := by
      show ((TextSource.ofString (u ++ v)).seek _).place.text = _
      rw [TextSource.text_seek]
      exact String.toList_append
    cursor_eq := by
      have hbehind : (TextSource.ofString (u ++ v)).place.behind = u.toList ++ v.toList :=
        String.toList_append
      have hcursor := (TextSource.seek_behind hbehind).1
      have hzero : (TextSource.ofString (u ++ v)).place.offset = 0 := rfl
      rw [hzero, Nat.zero_add] at hcursor
      exact hcursor.trans (Nat.zero_add _).symm }
  mode_eq := rfl
  finished_eq := rfl

/-- **What a stream does depends on the rest of the text only.** Over a validated table, whatever
the hook, the strategy and the mode, a session over `u ++ v` that begins behind `u` is the session
over `v` with the hook that sees all matches shifted: the answers and hook calls are the same with
the bytes of `u` added to every offset, the cursors differ by these bytes after every request, and
the hook is left in the same state. -/
theorem Table.Validated.session_suffix {t : Table} (valid : t.Validated) (u v : String)
    (hook : Hook η) (forced : Option Strategy) (mode : Nat) {requests : List Request}
    (driving : ∀ request ∈ requests, request.Driving) :
    let n := u.utf8ByteSize
    ∃ shown final final',
      t.session v (hook.shifted n) forced (.setMode mode :: requests) =
        .ok (⟨.done, 0, mode, []⟩ :: shown, final) ∧
      t.session (u ++ v) hook forced (.setOffset n :: .setMode mode :: requests) =
        .ok (⟨.done, n, 0, []⟩ :: ⟨.done, n, mode, []⟩ :: shown.map (·.shift n), final') ∧
      final'.offset = final.offset + n ∧ final'.mode = final.mode ∧
      final'.matcher.hook.state = final.matcher.hook.state := by
  rw [← Text.width_toList u]
  intro n
  have admitted : ∀ request ∈ requests, request.Admitted t.rows.size :=
    fun r hr => (driving r hr).admitted _
  let fresh := t.fresh v (hook.shifted n) forced
  let moved := (t.fresh (u ++ v) hook forced).setOffset n
  have hmoved : fresh.Behind u.toList moved := t.fresh_behind u v hook forced
  have hoffset : moved.offset = n := hmoved.offset_eq.trans (Nat.zero_add n)
  have hmode : { fresh with mode }.Behind u.toList { moved with mode } :=
    ⟨hmoved.matcher, rfl, rfl⟩
  obtain ⟨shown, final, run⟩ := exists_run requests { fresh with mode }
  obtain ⟨final', run', hfinal⟩ := run.behind driving hmode
  refine ⟨shown, final, final', ?_, ?_, hfinal.offset_eq, hfinal.mode_eq, ?_⟩
  · have alone : Run fresh (.setMode mode :: requests) (⟨.done, 0, mode, []⟩ :: shown) final :=
      .cons (.setMode mode) run
    exact alone.serve_eq (valid.ready rfl) rfl (List.forall_mem_cons.2 ⟨trivial, admitted⟩)
  · have whole : Run (t.fresh (u ++ v) hook forced) (.setOffset n :: .setMode mode :: requests)
        (⟨.done, moved.offset, 0, []⟩ :: ⟨.done, moved.offset, mode, []⟩ :: _) final' :=
      .cons (.setOffset n) (.cons (.setMode mode) run')
    rw [hoffset] at whole
    exact whole.serve_eq (valid.ready rfl) rfl
      (List.forall_mem_cons.2 ⟨trivial, List.forall_mem_cons.2 ⟨trivial, admitted⟩⟩)
  · rw [hfinal.matcher.hook_eq]
    rfl

/-- Remembers where the matches end and rejects those that end at an even offset. -/
def parity : Hook (List Nat) := ⟨[], fun ends _ m => (.ofReject (m.stop % 2 = 0), m.stop :: ends)⟩

/-- Behind two wide characters, in a mode that does not exist and then in one that does: a word of
which the end is rejected, a wide character that no rule accepts, and the end of the text, rejected
as well. -/
theorem session_suffix_wordTable :
    let requests := [.next, .setMode 0, .next, .next, .next, .next, .next]
    (∀ request ∈ requests, request.Driving) ∧ wordTable.Validated ∧
      ∃ shown final final',
        wordTable.session "abcé" (parity.shifted 5) (some .backtracking) (.setMode 3 :: requests) =
          .ok (⟨.done, 0, 3, []⟩ :: shown, final) ∧
        wordTable.session "€éabcé" parity (some .backtracking)
            (.setOffset 5 :: .setMode 3 :: requests) =
          .ok (⟨.done, 5, 0, []⟩ :: ⟨.done, 5, 3, []⟩ :: shown.map (·.shift 5), final') ∧
        final'.offset = final.offset + 5 ∧ final'.mode = final.mode ∧
        final'.matcher.hook.state = final.matcher.hook.state := by
  intro requests
  have driving : ∀ request ∈ requests, request.Driving := by decide
  exact ⟨driving, wordTable_validated,
    wordTable_validated.session_suffix "€é" "abcé" parity (some .backtracking) 3 driving⟩

end Munch
