import Munch.Proofs.Stream.Step

/-!
# A stream that was moved is as good as new

Between two requests a stream keeps its place in the text, the hook, the mode, the flag that it is
finished, and the history of its matcher. Moving it replaces the place and clears the flag. The
history stays, but nothing that a stream does depends on it.

* `TokenStream.answer_withHistory`, `TokenStream.serve_withHistory` — whatever the history holds,
  requests are answered in the same way. This is so for every source.
* `TokenStream.Alike` — streams that have the same text, automaton, strategy, hook and mode.
  `TokenStream.Alike.setOffset_eq` — moved to the same place, they differ in nothing but the
  history, so `TokenStream.Alike.serve_moved` — they cannot be told apart any more.
* `Table.Validated.session_repositioned` — so no session can tell a stream that was moved from a
  fresh one. In a session there is not even a history to differ in: no scan leaves a record behind.
-/

namespace Munch

/-! ## The history -/

/-- What comes out of a computation, but for what `forget` takes away, depends on its first step
only up to that. -/
theorem map_bind_congr {m : Type → Type} [Monad m] [LawfulMonad m] {α β γ : Type} {x y : m α}
    {forget : α → α} (h : forget <$> x = forget <$> y) {f : β → γ} {k : α → m β}
    (hk : ∀ a, f <$> k (forget a) = f <$> k a) : f <$> (x >>= k) = f <$> (y >>= k) := by
  have hforget : ∀ z : m α, f <$> (z >>= k) = forget <$> z >>= fun a => f <$> k a := by
    intro z
    simp only [map_bind, bind_map_left, hk]
  rw [hforget, hforget, h]

namespace TokenStream

variable {σ η : Type}

/-- The stream with another history in its matcher. -/
def withHistory (s : TokenStream σ η) (history : History) : TokenStream σ η :=
  { s with matcher := s.matcher.withHistory history }

/-- A result without the history of the stream that it leaves. -/
def forget {α : Type} (r : α × TokenStream σ η) : α × TokenStream σ η :=
  (r.1, r.2.withHistory {})

theorem eq_of_forget_eq {α : Type} {r r' : α × TokenStream σ η} (h : forget r = forget r') :
    r = (r'.1, r'.2.withHistory r.2.matcher.history) := by
  obtain ⟨hfirst, hsecond⟩ := Prod.mk.inj h
  have hstream := congrArg (·.withHistory r.2.matcher.history) hsecond
  exact Prod.ext hfirst hstream

variable [Source σ]

theorem skip_withHistory (s : TokenStream σ η) (history : History) (why : Miss) (start : Nat) :
    forget <$> (s.withHistory history).skip why start = forget <$> s.skip why start := by
  have hread : Source.read ((s.withHistory history).matcher.seek start).source =
      Source.read (s.matcher.seek start).source := rfl
  unfold skip
  dsimp only
  rw [hread]
  cases Source.read (s.matcher.seek start).source with
  | none => rfl
  | some r => rfl

theorem next_withHistory (s : TokenStream σ η) (history : History) :
    forget <$> (s.withHistory history).next = forget <$> s.next := by
  have hfinished : (s.withHistory history).finished = s.finished := rfl
  have hstart : (s.withHistory history).matcher.automaton.startState? (s.withHistory history).mode =
      s.matcher.automaton.startState? s.mode := rfl
  unfold next
  rw [hfinished, hstart]
  split
  · rfl
  · cases s.matcher.automaton.startState? s.mode with
    | none => rfl
    | some state =>
      refine map_bind_congr (s.matcher.scan_withHistory history state) fun r => ?_
      obtain ⟨outcome, m⟩ := r
      cases outcome with
      | emitted found => rfl
      | missed why => exact skip_withHistory { s with matcher := m } {} why s.offset

/-- The answer to a request and the hook calls do not depend on the history. -/
theorem answer_withHistory (s : TokenStream σ η) (history : History) (request : Request) :
    forget <$> (s.withHistory history).answer request = forget <$> s.answer request := by
  cases request with
  | next =>
    exact map_bind_congr (s.next_withHistory history) fun r => rfl
  | setMode mode => rfl
  | setOffset offset => rfl
  | position offset =>
    simp only [answer, map_bind, map_pure]
    rfl
  | scan state =>
    exact map_bind_congr (s.matcher.scan_withHistory history state) fun r => rfl
  | setCursor cursor => rfl

/-- **What a stream answers does not depend on its history.** -/
theorem serve_withHistory (requests : List Request) (s : TokenStream σ η) (history : History) :
    forget <$> serve requests (s.withHistory history) = forget <$> serve requests s := by
  induction requests generalizing s history with
  | nil => rfl
  | cons request rest ih =>
    have hanswer := s.answer_withHistory history request
    have hcalls := congrArg Logged.calls hanswer
    have hresult := congrArg Logged.result hanswer
    simp only [Logged.calls_map, Logged.result_map] at hcalls hresult
    simp only [serve, hcalls]
    refine map_bind_congr hresult fun r => ?_
    obtain ⟨answer, s'⟩ := r
    exact map_bind_congr (ih s' {}) fun r => rfl

end TokenStream

/-! ## Moving -/

variable {η : Type} {t : Table}

/-- Streams with the same text, automaton, strategy, hook and mode. Where they stand, whether they
are finished, and what their histories hold may differ. -/
structure TokenStream.Alike (s s' : TokenStream TextSource η) : Prop where
  automaton_eq : s'.matcher.automaton = s.matcher.automaton
  strategy_eq : s'.matcher.strategy = s.matcher.strategy
  text_eq : s'.matcher.source.place.text = s.matcher.source.place.text
  hook_eq : s'.matcher.hook = s.matcher.hook
  mode_eq : s'.mode = s.mode

namespace TokenStream.Alike

variable {s s' : TokenStream TextSource η}

/-- **Moving forgets.** Where the source stood, whether the stream had finished, and why, makes no
difference any more; only the history may still differ. -/
theorem setOffset_eq (alike : s.Alike s') (offset : Nat) :
    s'.setOffset offset = (s.setOffset offset).withHistory s'.matcher.history := by
  have hsource : s'.matcher.source.seek offset = s.matcher.source.seek offset :=
    TextSource.seek_congr alike.text_eq offset
  show TokenStream.mk ⟨s'.matcher.automaton, s'.matcher.source.seek offset, s'.matcher.hook,
      s'.matcher.strategy, s'.matcher.history⟩ s'.mode false =
    ⟨⟨s.matcher.automaton, s.matcher.source.seek offset, s.matcher.hook, s.matcher.strategy,
      s'.matcher.history⟩, s.mode, false⟩
  rw [alike.automaton_eq, alike.strategy_eq, alike.hook_eq, alike.mode_eq, hsource]

/-- **Streams that are alike cannot be told apart once they are moved.** -/
theorem serve_moved (alike : s.Alike s') {offset : Nat} {later : List Request}
    {shown : List Observation} {final : TokenStream TextSource η}
    (h : serve (.setOffset offset :: later) s = .ok (shown, final)) :
    ∃ left, serve (.setOffset offset :: later) s' = .ok (shown, final.withHistory left) := by
  have hanswer : s'.answer (.setOffset offset) =
      (s.withHistory s'.matcher.history).answer (.setOffset offset) := by
    show pure (Answer.done, s'.setOffset offset) = _
    rw [alike.setOffset_eq]
    rfl
  have hmoved : serve (.setOffset offset :: later) s' =
      serve (.setOffset offset :: later) (s.withHistory s'.matcher.history) := by
    rw [serve, serve, hanswer]
  have hforget := serve_withHistory (.setOffset offset :: later) s s'.matcher.history
  rw [h, ← hmoved] at hforget
  cases hserve : serve (.setOffset offset :: later) s' with
  | error fault =>
    rw [hserve] at hforget
    cases hforget
  | ok r =>
    rw [hserve] at hforget
    exact ⟨_, congrArg Except.ok (eq_of_forget_eq (Except.ok.inj hforget))⟩

end TokenStream.Alike

/-- A fresh stream with its mode set and its source moved. -/
theorem Table.run_placed (t : Table) (input : String) (hook : Hook η) (strategy : Strategy)
    (mode offset : Nat) :
    let fresh := t.fresh input hook (some strategy)
    let placed := { fresh with mode }.setOffset offset
    Run fresh [.setMode mode, .setCursor offset]
      [⟨.done, 0, mode, []⟩, ⟨.done, placed.offset, mode, []⟩] placed :=
  .cons (.setMode mode) (.cons (.setCursor offset) (.nil _))

/-- **A stream that was moved is as good as new.** After any requests, a session in which the stream
is then moved to `offset` goes on like a session over the same text and table that begins with the
hook, the strategy and the mode as they are by then and with the source at `offset`: the answers,
cursors, modes and hook calls are the same, and in the end the streams are.

The scans before the move, whether they emitted a match, had all matches rejected or found none,
have left nothing in the history. But even with any other history, at any other place in the text,
and finished or not, the stream would answer as it does. -/
theorem Table.Validated.session_repositioned (valid : t.Validated) (input : String) (hook : Hook η)
    (forced : Option Strategy) {before later : List Request} (offset : Nat)
    (admitted : ∀ request ∈ before ++ later, request.Admitted t.rows.size) :
    ∃ seen s shown final,
      t.session input hook forced before = .ok (seen, s) ∧
      t.session input hook forced (before ++ .setOffset offset :: later) =
        .ok (seen ++ shown, final) ∧
      t.session input s.matcher.hook (some s.matcher.strategy)
          (.setMode s.mode :: .setCursor offset :: later) =
        .ok (⟨.done, 0, s.mode, []⟩ :: shown, final) ∧
      s.matcher.history = {} ∧
      ∀ s' : TokenStream TextSource η, s.Alike s' → ∃ left,
        TokenStream.serve (.setOffset offset :: later) s' =
          .ok (shown, final.withHistory left) := by
  obtain ⟨hbefore, hlater⟩ := List.forall_mem_append.1 admitted
  obtain ⟨seen, s, hsession, run⟩ := valid.session_run input hook forced hbefore
  obtain ⟨shown, final, rest⟩ := exists_run later (s.setOffset offset)
  have same := run.sameSetting
  have idle : s.matcher.history = {} := TokenStream.history_of_serve hsession rfl
  have hmoved : ∀ request ∈ Request.setOffset offset :: later, request.Admitted t.rows.size :=
    List.forall_mem_cons.2 ⟨trivial, hlater⟩
  let arrived : Observation := ⟨.done, (s.setOffset offset).offset, s.mode, []⟩
  have moved : Run s (.setOffset offset :: later) (arrived :: shown) final :=
    .cons (.setOffset offset) rest
  refine ⟨seen, s, arrived :: shown, final, hsession, ?_, ?_, idle, ?_⟩
  · exact (run.append moved).serve_eq (valid.ready rfl) rfl
      (List.forall_mem_append.2 ⟨hbefore, hmoved⟩)
  · -- the fresh stream to compare with differs from the one reached in its place and its flag only
    let renewed := { t.fresh input s.matcher.hook (some s.matcher.strategy) with mode := s.mode }
    have alike : renewed.Alike s := ⟨same.automaton_eq, rfl, same.text_eq, rfl, rfl⟩
    have hplaced : s.setOffset offset = renewed.setOffset offset := by
      rw [alike.setOffset_eq, idle]
      rfl
    have placed : Run (t.fresh input s.matcher.hook (some s.matcher.strategy))
        [.setMode s.mode, .setCursor offset]
        [⟨.done, 0, s.mode, []⟩, arrived] (s.setOffset offset) := by
      unfold arrived
      rw [hplaced]
      exact t.run_placed input s.matcher.hook s.matcher.strategy s.mode offset
    exact (placed.append rest).serve_eq (valid.ready rfl) rfl
      (List.forall_mem_cons.2 ⟨trivial, List.forall_mem_cons.2 ⟨trivial, hlater⟩⟩)
  · intro s' alike
    exact alike.serve_moved (moved.serve_eq (valid.ready same.automaton_eq) idle hmoved)

/-- Rejects every second match. -/
def wavering : Hook Bool := ⟨false, fun reject _ _ => (.ofReject reject, !reject)⟩

/-- Behind a word, a character that no rule accepts, a rejected letter and the report of an unknown
mode, the mode is set to another one that does not exist and the stream is moved into the middle of
a wide character. A record of a scan and the flag, put in by force, are of no consequence. -/
theorem session_repositioned_wordTable :
    let before := [.next, .next, .next, .setMode 5, .next, .next, .setMode 7]
    let later := [.next, .setMode 0, .next, .setOffset 9, .next]
    let stale : History := ⟨[⟨⟨1⟩, [⟨0⟩], 1⟩]⟩
    wordTable.Validated ∧
      (∀ request ∈ before ++ later, request.Admitted wordTable.rows.size) ∧
      ∃ seen s shown final,
        wordTable.session "aéb" wavering (some .backtracking) before = .ok (seen, s) ∧
        wordTable.session "aéb" wavering (some .backtracking)
          (before ++ .setOffset 2 :: later) = .ok (seen ++ shown, final) ∧
        wordTable.session "aéb" s.matcher.hook (some s.matcher.strategy)
            (.setMode s.mode :: .setCursor 2 :: later) =
          .ok (⟨.done, 0, s.mode, []⟩ :: shown, final) ∧
        s.matcher.history = {} ∧
        ∃ left, TokenStream.serve (.setOffset 2 :: later)
          { s.withHistory stale with finished := true } = .ok (shown, final.withHistory left) := by
  intro before later stale
  have admitted : ∀ request ∈ before ++ later, request.Admitted wordTable.rows.size := by decide
  obtain ⟨seen, s, shown, final, hsession, hmoved, hrenewed, idle, halike⟩ :=
    wordTable_validated.session_repositioned "aéb" wavering (some .backtracking) 2 admitted
  exact ⟨wordTable_validated, admitted, seen, s, shown, final, hsession, hmoved, hrenewed, idle,
    halike _ ⟨rfl, rfl, rfl, rfl, rfl⟩⟩

end Munch
