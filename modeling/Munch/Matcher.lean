import Munch.Logged
import Munch.Scan.History

/-!
# Matchers

A matcher reads tokens: it is bound to an automaton, a source and a hook, and it follows a
strategy.

* `Matcher.offer` moves the source to the end of a candidate and lets the hook decide.
* `Matcher.scanGreedy` keeps only the latest accepting state and its first symbol. The hook is
  asked, but a rejection does not keep the match from being produced.
* `Matcher.scanBacktracking` keeps all of them in the history of the matcher. `Matcher.resolve`
  takes them off again, the latest first, and offers what they accept until one match is accepted.
  If all are rejected, the source stays where the last one left it. `resolve_of_none` and
  `resolve_of_some` are the equations of that loop.
* After a scan without any candidate the source is back where it started.
-/

namespace Munch

/-- An automaton at work on a source. -/
structure Matcher (σ η : Type) where
  automaton : Automaton
  source : σ
  hook : Hook η
  strategy : Strategy
  /-- The accepting states that a backtracking scan has still to resolve. It outlives the scan; the
  greedy strategy has no use for it. -/
  history : History := {}

namespace Matcher

variable {σ η : Type} [Source σ]

/-- A matcher with the forced strategy, or else the one that suits the automaton. -/
def make (automaton : Automaton) (source : σ) (hook : Hook η) (forced : Option Strategy) :
    Logged (Matcher σ η) := do
  let strategy := Strategy.select forced automaton.mayReject
  Logged.emit (.selected strategy)
  return { automaton, source, hook, strategy }

/-- Where the source stands. -/
def cursor (m : Matcher σ η) : Nat := Source.cursor m.source

/-- Moves the source. -/
def seek (m : Matcher σ η) (cursor : Nat) : Matcher σ η :=
  { m with source := Source.seek m.source cursor }

/-- The matcher with another history. -/
def withHistory (m : Matcher σ η) (history : History) : Matcher σ η := { m with history }

/-- Lets the hook decide on a candidate, with the source at its end. -/
def offer (m : Matcher σ η) (start : Nat) (candidate : Candidate) :
    Logged (Match × Verdict × Matcher σ η) := do
  let m := m.seek candidate.stop
  let span ← Span.make start candidate.stop
  let action ← m.automaton.action candidate.symbol
  let found : Match := ⟨candidate.symbol, span⟩
  let (verdict, hook) := m.hook.invoke action found
  Logged.emit (.invoked ⟨action, found, m.cursor, verdict⟩)
  return (found, verdict, { m with hook })

/-- Reports that nothing matched and goes back to `start`. -/
def noMatch (m : Matcher σ η) (start : Nat) : Logged (Outcome × Matcher σ η) := do
  Logged.emit (.noMatch start)
  return (.missed .noMatch, m.seek start)

/-- Keeps the first symbol of the latest accepting state. -/
def recordLatest (_ : Option Candidate) (a : Acceptance) : Except Fault (Option Candidate) :=
  .ok (some ⟨a.first, a.position⟩)

/-- A scan that commits to the longest match. -/
def scanGreedy (m : Matcher σ η) (state : StateId) : Logged (Outcome × Matcher σ η) := do
  let start := m.cursor
  let (latest, source) ← forward m.automaton recordLatest state m.source none
  let m := { m with source }
  match latest with
  | none => m.noMatch start
  | some candidate =>
    let (found, verdict, m) ← m.offer start candidate
    if verdict.isReject then Logged.emit (.overruled found)
    return (.emitted found, m)

/-- Offers candidates one after the other, up to the first that is accepted. -/
def offerEach (start : Nat) : List Candidate → Matcher σ η → Logged (Option Match × Matcher σ η)
  | [], m => return (none, m)
  | candidate :: rest, m => do
    let (found, verdict, m) ← m.offer start candidate
    match verdict with
    | .accept => return (some found, m)
    | .reject =>
      Logged.emit (.rejected found)
      offerEach start rest m

/-- Takes one record after the other off the history and offers its symbols. -/
def resolve (start : Nat) (m : Matcher σ η) : Logged (Outcome × Matcher σ η) :=
  match _h : m.history.pop? with
  | none => do
    Logged.emit (.exhausted start)
    return (.missed .rejected, m)
  | some (top, older) => do
    let (accepted, m) ← offerEach start top.candidates (m.withHistory older)
    match accepted with
    | some found => return (.emitted found, m.withHistory m.history.clear)
    -- the offers have left the history as it was
    | none => resolve start (m.withHistory older)
termination_by m.history.size
decreasing_by exact History.size_lt_of_pop? _h

theorem resolve_of_none {start : Nat} {m : Matcher σ η} (h : m.history.pop? = none) :
    m.resolve start = (do
      Logged.emit (.exhausted start)
      return (.missed .rejected, m)) := by
  rw [resolve]
  split
  · rfl
  · next h' =>
    rw [h] at h'
    cases h'

theorem resolve_of_some {start : Nat} {m : Matcher σ η} {top : Acceptance} {older : History}
    (h : m.history.pop? = some (top, older)) :
    m.resolve start = (do
      let (accepted, m) ← offerEach start top.candidates (m.withHistory older)
      match accepted with
      | some found => return (.emitted found, m.withHistory m.history.clear)
      | none => resolve start (m.withHistory older)) := by
  rw [resolve]
  split
  · next h' =>
    rw [h] at h'
    cases h'
  · next h' =>
    rw [h] at h'
    cases h'
    rfl

/-- A scan that tries every match. -/
def scanBacktracking (m : Matcher σ η) (state : StateId) : Logged (Outcome × Matcher σ η) := do
  let m := m.withHistory m.history.clear
  let start := m.cursor
  let (history, source) ← forward m.automaton History.push state m.source m.history
  let m := { m with source, history }
  if m.history.isEmpty then m.noMatch start
  else
    Logged.emit (.recorded m.history.size start)
    m.resolve start

/-- Reads one token from the given state on. -/
def scan (m : Matcher σ η) (state : StateId) : Logged (Outcome × Matcher σ η) :=
  match m.strategy with
  | .greedy => m.scanGreedy state
  | .backtracking => m.scanBacktracking state

end Matcher

end Munch
