import Munch.Proofs.Source.Lines
import Munch.Proofs.Stream.Tiling

/-!
# Positions of successive tokens

A stream with positions yields what the bare stream yields, every token with the line and the column
of both its ends. Since the tokens and the skipped characters tile the text, and since positions at
character boundaries are ordered as the offsets are, the positions of successive tokens fit
together.

* `Drive` — what a stream with positions is asked for. `TokenStream.answerLocated` carries out one
  such request and `TokenStream.serveLocated` a list of them.
* `LocatedMatch.LiesIn` — a token covers a part of a text and carries the positions of its ends.
* `Step.locates` — a request to the bare stream, made to the stream with positions, comes to the
  same answer with positions. `Run.locates` — and so do all of them.
* `TextSource.position_order` — positions at boundaries compare as the offsets do.
  `Contiguous.gap` — what lies between two tokens are the characters that were skipped.
* `PositionsFit` — positions that fit together, and `Table.Validated.located_session_fits` — those
  of a session do.
-/

namespace Munch

open Logged

/-- What may be asked of a stream that is only driven on. -/
inductive Drive where
  | next
  | setMode (mode : Nat)
deriving DecidableEq, Repr

/-- The same request, made to the bare stream. -/
def Drive.request : Drive → Request
  | .next => .next
  | .setMode mode => .setMode mode

theorem Drive.driving (drive : Drive) : drive.request.Driving := by
  cases drive with
  | next => trivial
  | setMode mode => trivial

/-- The answer of a stream with positions. -/
inductive LocatedAnswer where
  | item (item : Option (Yield LocatedMatch))
  | done
deriving Repr

namespace LocatedAnswer

/-- The answer without the positions. -/
def bare : LocatedAnswer → Answer
  | .item none => .item none
  | .item (some (.error cause)) => .item (some (.error cause))
  | .item (some (.ok m)) => .item (some (.ok m.toMatch))
  | .done => .done

/-- The token that is yielded. -/
def token? : LocatedAnswer → Option LocatedMatch
  | .item (some (.ok m)) => some m
  | _ => none

/-- A character was skipped. -/
def Skips : LocatedAnswer → Prop
  | .item (some (.error (.unrecognizedCharacter _ _))) => True
  | _ => False

end LocatedAnswer

/-- What a caller sees of one request to a stream with positions. -/
structure LocatedObservation where
  answer : LocatedAnswer
  cursor : Nat
  mode : Nat
  calls : List Invocation
deriving Repr

/-- What a caller sees of the same request to the bare stream. -/
def LocatedObservation.bare (o : LocatedObservation) : Observation :=
  ⟨o.answer.bare, o.cursor, o.mode, o.calls⟩

namespace TokenStream

variable {σ η : Type} [Source σ]

/-- Carries out one request to a stream with positions. -/
def answerLocated (s : TokenStream σ η) : Drive → Logged (LocatedAnswer × TokenStream σ η)
  | .next => do
    let (item, s) ← s.nextLocated
    return (.item item, s)
  | .setMode mode => do return (.done, ← s.setMode mode)

/-- Carries out requests to a stream with positions in order. -/
def serveLocated : List Drive → TokenStream σ η →
    Except Fault (List LocatedObservation × TokenStream σ η)
  | [], s => .ok ([], s)
  | drive :: rest, s => do
    let performed := s.answerLocated drive
    let (answer, s) ← performed.result
    let (later, final) ← serveLocated rest s
    return (⟨answer, s.offset, s.mode, performed.calls⟩ :: later, final)

end TokenStream

/-- A fresh stream with positions over a text. -/
def Table.locatedSession {η : Type} (t : Table) (input : String) (hook : Hook η)
    (forced : Option Strategy) (drives : List Drive) :
    Except Fault (List LocatedObservation × TokenStream TextSource η) := do
  let matcher ← (Matcher.make t.automaton (TextSource.ofString input) hook forced).result
  TokenStream.serveLocated drives { matcher }

/-! ## Positions of boundaries -/

namespace TextSource

variable {s s' : TextSource}

/-- Positions depend on the text only. -/
theorem position_congr (h : s.place.text = s'.place.text) (offset : Nat) :
    s.position offset = s'.position offset := by
  unfold position lineIndex size
  rw [s.lineStarts_eq, s'.lineStarts_eq, h]

/-- **Positions at character boundaries compare as the offsets do.** -/
theorem position_order {m n : Nat} {p q : Position} (hm : Text.IsBoundary s.place.text m)
    (hn : Text.IsBoundary s.place.text n) (hp : s.position m = .ok p) (hq : s.position n = .ok q) :
    (p ≤ q ↔ m ≤ n) ∧ (p = q ↔ m = n) := by
  have hless := position_lt_iff hm hn hp hq
  have hmore := position_lt_iff hn hm hq hp
  have hle : p ≤ q ↔ ¬q < p := by
    rw [Position.le_def, Position.lt_def]
    omega
  refine ⟨by rw [hle, hmore, Nat.not_lt], fun heq => ?_, fun heq => ?_⟩
  · subst heq
    have hnot := hless.not.1 p.lt_irrefl
    have hnot' := hmore.not.1 p.lt_irrefl
    omega
  · rw [heq, hq] at hp
    exact (Except.ok.inj hp).symm

end TextSource

/-- A token covers a part of the text and carries the positions of its ends. -/
structure LocatedMatch.LiesIn (source : TextSource) (m : LocatedMatch) : Prop where
  covers : ∃ part, Text.slice? source.place.text m.span.start m.span.stop = some part
  startsAt_eq : source.position m.span.start = .ok m.startsAt
  endsAt_eq : source.position m.span.stop = .ok m.endsAt

namespace LocatedMatch.LiesIn

variable {source : TextSource} {m m' : LocatedMatch}

/-- Where a token lies depends on the text only. -/
theorem congr {source' : TextSource} (h : m.LiesIn source)
    (ht : source'.place.text = source.place.text) : m.LiesIn source' where
  covers := by
    rw [ht]
    exact h.covers
  startsAt_eq := (TextSource.position_congr ht _).trans h.startsAt_eq
  endsAt_eq := (TextSource.position_congr ht _).trans h.endsAt_eq

/-- A token does not end before it starts, and its positions are the same only if it is empty. -/
theorem ends (h : m.LiesIn source) :
    m.startsAt ≤ m.endsAt ∧ (m.startsAt = m.endsAt ↔ m.span.isEmpty = true) := by
  obtain ⟨part, hslice⟩ := h.covers
  obtain ⟨hstart, hstop⟩ := Text.isBoundary_of_slice? hslice
  obtain ⟨a, b, _, _, hwidth⟩ := Text.slice?_eq_some_iff.1 hslice
  obtain ⟨hle, heq⟩ := TextSource.position_order hstart hstop h.startsAt_eq h.endsAt_eq
  have hempty : m.span.isEmpty = true ↔ m.span.start = m.span.stop := by
    simp only [Span.isEmpty, decide_eq_true_eq]
    omega
  exact ⟨hle.2 (by omega), heq.trans hempty.symm⟩

/-- The end of one token and the start of another compare as the offsets do. -/
theorem order (h : m.LiesIn source) (h' : m'.LiesIn source) :
    (m.endsAt ≤ m'.startsAt ↔ m.span.stop ≤ m'.span.start) ∧
      (m.endsAt = m'.startsAt ↔ m.span.stop = m'.span.start) := by
  obtain ⟨part, hslice⟩ := h.covers
  obtain ⟨part', hslice'⟩ := h'.covers
  exact TextSource.position_order (Text.isBoundary_of_slice? hslice).2
    (Text.isBoundary_of_slice? hslice').1 h.endsAt_eq h'.startsAt_eq

end LocatedMatch.LiesIn

/-! ## The stream with positions follows the bare stream -/

variable {η : Type} {s s' : TokenStream TextSource η} {calls : List Invocation}

/-- A token covers a part of the text. -/
theorem Answer.Accounts.slice_of_token {text : List Char} {start stop : Nat} {found : Match}
    (h : (Answer.item (some (.ok found))).Accounts text start stop) :
    ∃ part, Text.slice? text found.start found.stop = some part := by
  cases h with
  | still hpiece => cases hpiece
  | moved part hpiece hslice =>
    have hspan : found.span = ⟨start, stop⟩ := Option.some.inj hpiece
    rw [Match.start, Match.stop, hspan]
    exact ⟨part, hslice⟩

/-- The token of a step, with the positions of its ends. -/
theorem locate_returns (hsame : SameSetting s s') {found : Match} {part : List Char}
    (hslice : Text.slice? s.matcher.source.place.text found.start found.stop = some part) :
    ∃ m : LocatedMatch, s'.locate found = .ok m ∧ m.toMatch = found ∧
      m.LiesIn s.matcher.source := by
  obtain ⟨p, hp⟩ := s.matcher.source.position_eq_ok found.start
  obtain ⟨q, hq⟩ := s.matcher.source.position_eq_ok found.stop
  refine ⟨⟨found.symbol, found.span, p, q⟩, ?_, rfl, ⟨part, hslice⟩, hp, hq⟩
  have hp' : s'.position found.start = .ok p :=
    (TextSource.position_congr hsame.text_eq _).trans hp
  have hq' : s'.position found.stop = .ok q :=
    (TextSource.position_congr hsame.text_eq _).trans hq
  unfold TokenStream.locate
  rw [hp', hq']
  rfl

/-- **What the bare stream answers, the stream with positions answers with positions.** -/
theorem Step.locates {states : Nat}
    (ready : s.matcher.automaton.Ready fun state => state.index < states)
    (idle : s.matcher.history = {}) {drive : Drive} {answer : Answer}
    (h : Step s drive.request calls answer s') :
    ∃ located : LocatedAnswer, (s.answerLocated drive).Returns calls (located, s') ∧
      located.bare = answer ∧ ∀ m, located.token? = some m → m.LiesIn s.matcher.source := by
  have hsame := h.sameSetting
  have haccounts := h.accounts drive.driving
  cases drive with
  | setMode mode =>
    cases h
    have hset : (s.setMode mode).Returns [] { s with
        mode
        finished := s.finished && (s.matcher.automaton.startState? s.mode).isSome } :=
      Returns.emit_bind rfl (returns_pure _)
    exact ⟨.done, hset.bind (returns_pure _), rfl, fun _ hm => nomatch hm⟩
  | next =>
    cases h with
    | @next _ item _ hstep =>
    have hnext := hstep.returns ready idle
    -- locating a token makes no hook calls, so that those of the bare stream are all
    suffices hitem : ∃ located, (s.nextLocated).Returns calls (located, s') ∧
        (LocatedAnswer.item located).bare = .item item ∧
        ∀ m, (LocatedAnswer.item located).token? = some m → m.LiesIn s.matcher.source by
      obtain ⟨located, hlocated, hbare, hlies⟩ := hitem
      exact ⟨.item located, Returns.of_eq (hlocated.bind (returns_pure _)) (List.append_nil _) rfl,
        hbare, hlies⟩
    match item with
    | none =>
      exact ⟨none, Returns.of_eq (hnext.bind (returns_pure _)) (List.append_nil _) rfl, rfl,
        fun _ hm => nomatch hm⟩
    | some (.error cause) =>
      exact ⟨some (.error cause),
        Returns.of_eq (hnext.bind (returns_pure _)) (List.append_nil _) rfl, rfl,
        fun _ hm => nomatch hm⟩
    | some (.ok found) =>
      obtain ⟨part, hslice⟩ := haccounts.slice_of_token
      obtain ⟨m, hlocate, hmatch, hlies⟩ := locate_returns hsame hslice
      refine ⟨some (.ok m), Returns.of_eq
        (hnext.bind (Returns.lift_bind hlocate (returns_pure _))) (List.append_nil _) rfl, ?_, ?_⟩
      · rw [LocatedAnswer.bare, hmatch]
      · intro m' hm'
        cases hm'
        exact hlies

/-- **A run of the bare stream is a run of the stream with positions.** -/
theorem Run.locates {states : Nat} {drives : List Drive} {observations : List Observation}
    (h : Run s (drives.map Drive.request) observations s')
    (ready : s.matcher.automaton.Ready fun state => state.index < states)
    (idle : s.matcher.history = {}) :
    ∃ located, TokenStream.serveLocated drives s = .ok (located, s') ∧
      located.map (·.bare) = observations ∧
      ∀ o ∈ located, ∀ m, o.answer.token? = some m → m.LiesIn s.matcher.source := by
  induction drives generalizing s observations with
  | nil =>
    cases h
    exact ⟨[], rfl, rfl, fun _ ho => nomatch ho⟩
  | cons drive rest ih =>
    cases h with
    | @cons _ s₁ _ _ _ calls answer later step run =>
    obtain ⟨first, hfirst, hbare, hlies⟩ := step.locates ready idle
    have hsame := step.sameSetting
    have hstep := step.returns ready idle (drive.driving.admitted states)
    have idle₁ := TokenStream.history_of_answer hstep.result_eq idle
    rw [← hsame.automaton_eq] at ready
    obtain ⟨located, hserve, hlater, hlies'⟩ := ih run ready idle₁
    refine ⟨⟨first, s₁.offset, s₁.mode, calls⟩ :: located, ?_, ?_, ?_⟩
    · rw [TokenStream.serveLocated, hfirst.result_eq, hfirst.calls_eq]
      simp only [bind, Except.bind, hserve]
      rfl
    · rw [List.map_cons, hlater, LocatedObservation.bare, hbare]
    · refine List.forall_mem_cons.2 ⟨hlies, fun o ho m hm => ?_⟩
      exact (hlies' o ho m hm).congr hsame.text_eq.symm

/-! ## What lies between two tokens -/

/-- Spans that follow one another go as far as their first part and then on. -/
theorem Contiguous.split {start stop : Nat} {xs ys : List Span}
    (h : Contiguous start (xs ++ ys) stop) :
    ∃ middle, Contiguous start xs middle ∧ Contiguous middle ys stop := by
  induction xs generalizing start with
  | nil => exact ⟨start, rfl, h⟩
  | cons p rest ih =>
    obtain ⟨hstart, hrest⟩ := h
    obtain ⟨middle, hxs, hys⟩ := ih hrest
    exact ⟨middle, ⟨hstart, hxs⟩, hys⟩

/-- Spans that are not empty lead on, unless there are none. -/
theorem Contiguous.gap {start stop : Nat} {spans : List Span} (h : Contiguous start spans stop)
    (hpos : ∀ p ∈ spans, p.start < p.stop) : start ≤ stop ∧ (start = stop ↔ spans = []) := by
  induction spans generalizing start with
  | nil =>
    have hsame : start = stop := h
    simp [hsame]
  | cons p rest ih =>
    obtain ⟨rfl, hrest⟩ := h
    obtain ⟨hfirst, hothers⟩ := List.forall_mem_cons.1 hpos
    obtain ⟨hle, _⟩ := ih hrest hothers
    refine ⟨by omega, ?_⟩
    simp only [reduceCtorEq, iff_false]
    omega

namespace LocatedAnswer

variable {a : LocatedAnswer}

/-- A token accounts for its span. -/
theorem piece?_of_token {m : LocatedMatch} (h : a.token? = some m) :
    a.bare.piece? = some m.span := by
  unfold token? at h
  split at h
  · cases h
    rfl
  · cases h

/-- What yields no token accounts for a stretch of text if and only if a character was skipped, and
that is not empty. -/
theorem piece?_of_no_token (h : a.token? = none) :
    (a.bare.piece? = none ↔ ¬a.Skips) ∧ ∀ p, a.bare.piece? = some p → p.start < p.stop := by
  match a with
  | .item none => exact ⟨iff_of_true rfl id, fun _ hp => nomatch hp⟩
  | .item (some (.ok m)) => cases h
  | .item (some (.error (.unknownMode mode))) => exact ⟨iff_of_true rfl id, fun _ hp => nomatch hp⟩
  | .item (some (.error (.unrecognizedCharacter c offset))) =>
    refine ⟨iff_of_false (fun hp => nomatch hp) (fun hp => hp trivial), fun p hp => ?_⟩
    cases hp
    exact Nat.lt_add_of_pos_right c.utf8Size_pos
  | .done => exact ⟨iff_of_true rfl id, fun _ hp => nomatch hp⟩

end LocatedAnswer

variable {before between behind : List LocatedObservation} {o o' : LocatedObservation}
  {m m' : LocatedMatch}

/-- **Between two successive tokens lie the characters that were skipped there.** -/
theorem gap_of_contiguous {start stop : Nat}
    (h : Contiguous start
      (pieces ((before ++ o :: between ++ o' :: behind).map (·.bare))) stop)
    (hm : o.answer.token? = some m) (hm' : o'.answer.token? = some m')
    (hbetween : ∀ x ∈ between, x.answer.token? = none) :
    m.span.stop ≤ m'.span.start ∧
      (m.span.stop = m'.span.start ↔ ∀ x ∈ between, ¬x.answer.Skips) := by
  let skipped := between.filterMap (·.answer.bare.piece?)
  have hpieces : pieces ((before ++ o :: between ++ o' :: behind).map (·.bare)) =
      pieces (before.map (·.bare)) ++
        (m.span :: (skipped ++ (m'.span :: pieces (behind.map (·.bare))))) := by
    have ho : o.bare.answer.piece? = some m.span := LocatedAnswer.piece?_of_token hm
    have ho' : o'.bare.answer.piece? = some m'.span := LocatedAnswer.piece?_of_token hm'
    have hmiddle : pieces (between.map (·.bare)) = skipped := List.filterMap_map
    rw [← hmiddle]
    simp [pieces, ho, ho']
  rw [hpieces] at h
  obtain ⟨_, _, _, hrest⟩ := h.split
  obtain ⟨_, hskipped, hnext, _⟩ := hrest.split
  rw [← hnext] at hskipped
  have hpos : ∀ p ∈ skipped, p.start < p.stop := by
    intro p hp
    obtain ⟨x, hx, hpiece⟩ := List.mem_filterMap.1 hp
    exact (LocatedAnswer.piece?_of_no_token (hbetween x hx)).2 p hpiece
  have hnone : skipped = [] ↔ ∀ x ∈ between, ¬x.answer.Skips := by
    rw [List.filterMap_eq_nil_iff]
    exact forall₂_congr fun x hx => (LocatedAnswer.piece?_of_no_token (hbetween x hx)).1
  obtain ⟨hle, hiff⟩ := hskipped.gap hpos
  exact ⟨hle, hiff.trans hnone⟩

/-! ## Sessions -/

/-- The positions of the tokens fit to the text and to one another. -/
structure PositionsFit (source : TextSource) (located : List LocatedObservation) : Prop where
  lies : ∀ o ∈ located, ∀ m, o.answer.token? = some m → m.LiesIn source
  /-- A token does not end before it starts, and its positions are the same only if it is empty. -/
  ends : ∀ o ∈ located, ∀ m, o.answer.token? = some m →
    m.startsAt ≤ m.endsAt ∧ (m.startsAt = m.endsAt ↔ m.span.isEmpty = true)
  /-- A token does not start before the last one has ended, and it starts there if and only if no
  character was skipped in between. -/
  successive : ∀ before o between o' behind m m',
    located = before ++ o :: between ++ o' :: behind →
    o.answer.token? = some m → o'.answer.token? = some m' →
    (∀ x ∈ between, x.answer.token? = none) →
      m.endsAt ≤ m'.startsAt ∧
        (m.endsAt = m'.startsAt ↔ ∀ x ∈ between, ¬x.answer.Skips)

/-- **Positions of successive tokens fit together.** Over a validated table, whatever the hook, the
strategy and the modes, a stream with positions comes to an answer for every request and shows what
the bare stream shows: the same tokens and errors, with the same cursors, modes and hook calls. The
positions of a token are those of its ends in the text, in order, and different unless the token is
empty. The next token, whatever errors come in between, does not start before it has ended, and it
starts exactly there unless a character was skipped. -/
theorem Table.Validated.located_session_fits {t : Table} (valid : t.Validated) (input : String)
    (hook : Hook η) (forced : Option Strategy) (drives : List Drive) :
    ∃ located observations final,
      t.locatedSession input hook forced drives = .ok (located, final) ∧
      t.session input hook forced (drives.map Drive.request) = .ok (observations, final) ∧
      located.map (·.bare) = observations ∧ PositionsFit (.ofString input) located := by
  have driving : ∀ request ∈ drives.map Drive.request, request.Driving := by
    intro request hrequest
    obtain ⟨drive, _, rfl⟩ := List.mem_map.1 hrequest
    exact drive.driving
  obtain ⟨observations, final, hsession, run⟩ := valid.session_run input hook forced
    fun r hr => (driving r hr).admitted _
  obtain ⟨located, hserve, rfl, hlies⟩ := run.locates (valid.ready rfl) rfl
  refine ⟨located, _, final, hserve, hsession, rfl, hlies, fun o ho m hm => (hlies o ho m hm).ends,
    ?_⟩
  rintro before o between o' behind m m' rfl hm hm' hbetween
  have hgap := gap_of_contiguous (run.tiling driving).contiguous hm hm' hbetween
  obtain ⟨hle, heq⟩ := (hlies o (by simp) m hm).order (hlies o' (by simp) m' hm')
  exact ⟨hle.2 hgap.1, heq.trans hgap.2⟩

/-- A line break, a wide character and a blank are skipped between two words, and nothing is skipped
between the second word and the empty token at the end. A mode that does not exist is reported on
the way. -/
theorem located_session_fits_wordTable :
    let drives := [.next, .next, .setMode 3, .next, .setMode 0, .next, .next, .next, .next]
    wordTable.Validated ∧ ∃ located observations final,
      wordTable.locatedSession "ab\né c" Hook.acceptAll none drives = .ok (located, final) ∧
      wordTable.session "ab\né c" Hook.acceptAll none (drives.map Drive.request) =
        .ok (observations, final) ∧
      located.map (·.bare) = observations ∧ PositionsFit (.ofString "ab\né c") located ∧
      located.filterMap (·.answer.token?) =
        [⟨⟨0⟩, ⟨0, 2⟩, ⟨1, 1⟩, ⟨1, 3⟩⟩, ⟨⟨0⟩, ⟨6, 7⟩, ⟨2, 3⟩, ⟨2, 4⟩⟩,
          ⟨⟨1⟩, ⟨7, 7⟩, ⟨2, 4⟩, ⟨2, 4⟩⟩] := by
  intro drives
  obtain ⟨located, observations, final, hlocated, hsession, hbare, hfit⟩ :=
    wordTable_validated.located_session_fits "ab\né c" Hook.acceptAll none drives
  have htokens : (wordTable.locatedSession "ab\né c" Hook.acceptAll none drives).toOption.map
      (fun r => r.1.filterMap (·.answer.token?)) =
        some [⟨⟨0⟩, ⟨0, 2⟩, ⟨1, 1⟩, ⟨1, 3⟩⟩, ⟨⟨0⟩, ⟨6, 7⟩, ⟨2, 3⟩, ⟨2, 4⟩⟩,
          ⟨⟨1⟩, ⟨7, 7⟩, ⟨2, 4⟩, ⟨2, 4⟩⟩] := by
    decide +kernel
  rw [hlocated] at htokens
  exact ⟨wordTable_validated, located, observations, final, hlocated, hsession, hbare, hfit,
    Option.some.inj htokens⟩

end Munch
