import Munch.Proofs.Stream.Step

/-!
# Streams tile their text

A stream that is only asked for tokens and switched between modes accounts for every byte of its
text exactly once, in order.

* `Answer.piece?` — the stretch of text that an answer accounts for: the span of a token, or the
  character that was skipped.
* `Answer.Accounts` — the answer accounts for the way of the cursor from one offset to another.
  `Step.accounts` — every step does so.
* `Tiling` — what it means that a list of observations accounts for a stretch of text. A tiling is
  put together answer by answer, by `Tiling.nil` and `Tiling.cons`.
* `Table.Validated.session_tiles` — a session over a validated table tiles its text up to the
  cursor.
-/

namespace Munch

/-- The stretch of text that an answer accounts for. -/
def Answer.piece? : Answer → Option Span
  | .item (some (.ok found)) => some found.span
  | .item (some (.error (.unrecognizedCharacter c offset))) => some ⟨offset, offset + c.utf8Size⟩
  | _ => none

/-- The stretches of text that the answers account for. -/
def pieces (observations : List Observation) : List Span :=
  observations.filterMap (·.answer.piece?)

/-- The spans follow one another without gaps, from `start` to `stop`. -/
def Contiguous : Nat → List Span → Nat → Prop
  | start, [], stop => start = stop
  | start, p :: rest, stop => p.start = start ∧ Contiguous p.stop rest stop

/-- Requests that do not move the source otherwise than by reading. -/
def Request.Driving : Request → Prop
  | .next => True
  | .setMode _ => True
  | _ => False

instance (r : Request) : Decidable r.Driving := by
  unfold Request.Driving
  split <;> infer_instance

/-- The observations account for the text from `start` to `stop`. -/
structure Tiling (text : List Char) (start : Nat) (observations : List Observation) (stop : Nat) :
    Prop where
  contiguous : Contiguous start (pieces observations) stop
  boundary : ∀ p ∈ pieces observations, Text.IsBoundary text p.start ∧ Text.IsBoundary text p.stop
  /-- A character that was skipped is the character at its offset. -/
  character : ∀ o ∈ observations, ∀ c offset,
    o.answer = .item (some (.error (.unrecognizedCharacter c offset))) →
      Text.slice? text offset (offset + c.utf8Size) = some [c]
  /-- The texts of the pieces make up the text. -/
  texts : ∃ parts,
    (pieces observations).mapM (fun p => Text.slice? text p.start p.stop) = some parts ∧
      Text.slice? text start stop = some parts.flatten
  /-- Only a token at the end of the text is empty. -/
  empty : ∀ o ∈ observations, ∀ p, o.answer.piece? = some p → p.start = p.stop →
    (∃ found, o.answer = .item (some (.ok found))) ∧ p.stop = Text.width text

/-! ## One step -/

/-- The answer accounts for the way of the cursor from one offset to another. -/
inductive Answer.Accounts (text : List Char) (answer : Answer) : Nat → Nat → Prop
  | still {start : Nat} (h : answer.piece? = none) : Accounts text answer start start
  | moved {start stop : Nat} (part : List Char) (h : answer.piece? = some ⟨start, stop⟩)
    (slice : Text.slice? text start stop = some part)
    (character : ∀ c offset,
      answer = .item (some (.error (.unrecognizedCharacter c offset))) → part = [c])
    (empty : start = stop →
      (∃ found, answer = .item (some (.ok found))) ∧ stop = Text.width text) :
    Accounts text answer start stop

variable {η : Type} {s s' : TokenStream TextSource η} {calls : List Invocation}

theorem getLast?_of_outcome {strategy : Strategy} {found : Match}
    (h : strategy.outcome calls = .emitted found) :
    ∃ last, calls.getLast? = some last ∧ last.offered = found := by
  unfold Strategy.outcome at h
  split at h
  · cases h
  · rename_i last hlast
    split at h
    · cases h
    · exact ⟨last, hlast, Outcome.emitted.inj h⟩

/-- A token starts at the cursor and the cursor goes to its end. -/
theorem accounts_token {state : StateId} {found : Match}
    (ho : s.matcher.strategy.outcome (s.matcher.tried state) = .emitted found) :
    (Answer.item (some (.ok found))).Accounts s.matcher.source.place.text s.offset
      (s.matcher.afterCalls (s.matcher.tried state)).cursor := by
  obtain ⟨last, hlast, rfl⟩ := getLast?_of_outcome ho
  obtain ⟨hstart, x, y, htext, hstop, hempty⟩ :=
    Matcher.offered_of_mem_tried (List.mem_of_getLast? hlast)
  have hcursor : (s.matcher.afterCalls (s.matcher.tried state)).cursor = last.offered.stop := by
    rw [Matcher.cursor_afterCalls_tried, restOf, hlast]
  have hoffset : last.offered.start = s.offset := hstart
  rw [hcursor, ← hoffset]
  refine .moved x rfl ?_ ?_ ?_
  · rw [hstart, hstop]
    exact TextSource.slice?_behind htext
  · intro c offset h
    cases h
  · intro hsame
    refine ⟨⟨_, rfl⟩, ?_⟩
    -- an empty token covers nothing of the unread text, so that there is none left
    have hx : x = [] := Text.width_eq_zero.1 (by omega)
    have hend : s.matcher.source.place.behind = [] := by
      rw [htext, hx, hempty hx]
      rfl
    rw [← hsame, hstart]
    exact TextSource.offset_of_behind_nil hend

/-- A character that is skipped stands at the cursor and the cursor goes over it. -/
theorem accounts_skipped {c : Char} {rest : List Char}
    (hc : s.matcher.source.place.behind = c :: rest) :
    (Answer.item (some (.error (.unrecognizedCharacter c s.offset)))).Accounts
      s.matcher.source.place.text s.offset
      (s.matcher.source.seek (s.offset + c.utf8Size)).place.offset := by
  have hbehind : s.matcher.source.place.behind = [c] ++ rest := hc
  have hsize : Text.width [c] = c.utf8Size := by simp
  have hcursor := (TextSource.seek_behind hbehind).1
  have hslice := TextSource.slice?_behind hbehind
  rw [hsize] at hcursor hslice
  have hstop : (s.matcher.source.seek (s.offset + c.utf8Size)).place.offset =
    s.offset + c.utf8Size := hcursor
  rw [hstop]
  refine .moved [c] rfl hslice ?_ ?_
  · intro d offset h
    cases h
    rfl
  · intro hsame
    have hpos := c.utf8Size_pos
    omega

/-- **A step that only reads accounts for the way of the cursor.** -/
theorem Step.accounts {request : Request} (driving : request.Driving) {answer : Answer}
    (h : Step s request calls answer s') :
    answer.Accounts s.matcher.source.place.text s.offset s'.offset := by
  cases h with
  | next h =>
    cases h with
    | idle => exact .still rfl
    | unknownMode => exact .still rfl
    | token _ _ ho => exact accounts_token ho
    | skipped _ _ _ hc => exact accounts_skipped hc
    | ended => exact .still rfl
  | setMode => exact .still rfl
  | setOffset => exact driving.elim
  | position => exact driving.elim
  | scan => exact driving.elim
  | setCursor => exact driving.elim

/-! ## Runs -/

namespace Tiling

variable {text : List Char} {start middle stop : Nat}

theorem nil (h : Text.IsBoundary text start) : Tiling text start [] start where
  contiguous := rfl
  boundary := fun _ hp => nomatch hp
  character := fun _ ho => nomatch ho
  texts := ⟨[], rfl, Text.slice?_self h⟩
  empty := fun _ ho => nomatch ho

theorem cons {o : Observation} {later : List Observation}
    (first : o.answer.Accounts text start middle) (rest : Tiling text middle later stop) :
    Tiling text start (o :: later) stop := by
  cases first with
  | still hpiece =>
    have hsame : pieces (o :: later) = pieces later := List.filterMap_cons_none hpiece
    refine ⟨?_, ?_, ?_, ?_, ?_⟩
    · rw [hsame]
      exact rest.contiguous
    · rw [hsame]
      exact rest.boundary
    · refine List.forall_mem_cons.2 ⟨?_, rest.character⟩
      intro c offset h
      rw [h] at hpiece
      cases hpiece
    · rw [hsame]
      exact rest.texts
    · refine List.forall_mem_cons.2 ⟨?_, rest.empty⟩
      intro p hp
      rw [hpiece] at hp
      cases hp
  | moved part hpiece hslice hchar hempty =>
    have hmore : pieces (o :: later) = ⟨start, middle⟩ :: pieces later :=
      List.filterMap_cons_some hpiece
    obtain ⟨parts, hparts, hrest⟩ := rest.texts
    refine ⟨?_, ?_, ?_, ?_, ?_⟩
    · rw [hmore]
      exact ⟨rfl, rest.contiguous⟩
    · rw [hmore]
      exact List.forall_mem_cons.2 ⟨Text.isBoundary_of_slice? hslice, rest.boundary⟩
    · refine List.forall_mem_cons.2 ⟨?_, rest.character⟩
      intro c offset h
      rw [← hchar c offset h, ← hslice]
      rw [h] at hpiece
      cases hpiece
      rfl
    · refine ⟨part :: parts, ?_, Text.slice?_append hslice hrest⟩
      rw [hmore, List.mapM_cons, hslice, hparts]
      rfl
    · refine List.forall_mem_cons.2 ⟨?_, rest.empty⟩
      intro p hp
      rw [hpiece] at hp
      cases hp
      exact hempty

end Tiling

theorem Run.tiling {requests : List Request} {observations : List Observation}
    (h : Run s requests observations s') (driving : ∀ request ∈ requests, request.Driving) :
    Tiling s.matcher.source.place.text s.offset observations s'.offset := by
  induction h with
  | nil s => exact .nil s.matcher.source.place.isBoundary
  | cons step _ ih =>
    have hfirst := step.accounts (driving _ List.mem_cons_self)
    have hrest := ih (fun r hr => driving r (List.mem_cons_of_mem _ hr))
    rw [step.sameSetting.text_eq] at hrest
    exact .cons hfirst hrest

theorem Request.Driving.admitted {request : Request} (h : request.Driving) (states : Nat) :
    request.Admitted states := by
  cases request with
  | scan => exact h.elim
  | _ => trivial

/-- **A session tiles its text.** Over a validated table, whatever the hook, the strategy and the
modes, the tokens and the skipped characters cover the text from its start to the cursor without
gaps and without overlaps. -/
theorem Table.Validated.session_tiles {t : Table} (valid : t.Validated) (input : String)
    (hook : Hook η) (forced : Option Strategy) {requests : List Request}
    (driving : ∀ request ∈ requests, request.Driving) :
    ∃ observations final, t.session input hook forced requests = .ok (observations, final) ∧
      Tiling input.toList 0 observations final.offset := by
  have admitted : ∀ request ∈ requests, request.Admitted t.rows.size :=
    fun r hr => (driving r hr).admitted _
  obtain ⟨observations, final, hsession, run⟩ := valid.session_run input hook forced admitted
  exact ⟨observations, final, hsession, run.tiling driving⟩

/-- A wide character that no rule accepts, a word that is rejected letter by letter, and a mode that
does not exist. -/
theorem session_tiles_wordTable :
    let requests := [.next, .setMode 4, .next, .setMode 0, .next, .next, .next, .next]
    (∀ request ∈ requests, request.Driving) ∧ wordTable.Validated ∧
      ∃ observations final,
        wordTable.session "éab" ⟨(), fun _ _ _ => (.reject, ())⟩ (some .backtracking) requests =
          .ok (observations, final) ∧
        Tiling "éab".toList 0 observations final.offset := by
  intro requests
  have driving : ∀ request ∈ requests, request.Driving := by decide
  exact ⟨driving, wordTable_validated,
    wordTable_validated.session_tiles "éab" ⟨(), fun _ _ _ => (.reject, ())⟩ (some .backtracking)
      driving⟩

end Munch
