import Munch.Error
import Munch.Matcher

/-!
# Token streams

A token stream reads one token after the other, each from the start state of the current mode.
Where no token is found, one character is skipped and reported.

* `TokenStream.next` yields the next token or error. The stream is finished at the end of the
  input, after an empty token, and after an unknown mode has been reported.
* `TokenStream.setMode` switches the mode. A stream that was stopped by an unknown mode goes on.
* `TokenStream.setOffset` moves the source, and the stream goes on in any case.
* `TokenStream.nextLocated` adds the positions of both ends to a token.
-/

namespace Munch

/-- A matcher that is asked for one token after the other. -/
structure TokenStream (σ η : Type) where
  matcher : Matcher σ η
  mode : Nat := 0
  finished : Bool := false

/-- What a stream yields: a token or the reason why there is none. -/
abbrev Yield (α : Type) := Except StreamError α

namespace TokenStream

variable {σ η : Type} [Source σ]

/-- Where the source stands. -/
def offset (s : TokenStream σ η) : Nat := s.matcher.cursor

/-- Skips one character after a scan from `start` that missed; at the end the stream is over. -/
def skip (s : TokenStream σ η) (why : Miss) (start : Nat) :
    Logged (Option (Yield Match) × TokenStream σ η) := do
  let matcher := s.matcher.seek start
  match Source.read matcher.source with
  | none => return (none, { s with matcher, finished := true })
  | some (c, source) =>
    Logged.emit (.skipped why start c)
    return (some (.error (.unrecognizedCharacter c start)),
      { s with matcher := { matcher with source } })

/-- The next token or error; nothing once the stream is finished. -/
def next (s : TokenStream σ η) : Logged (Option (Yield Match) × TokenStream σ η) :=
  if s.finished then return (none, s)
  else
    match s.matcher.automaton.startState? s.mode with
    | none => return (some (.error (.unknownMode s.mode)), { s with finished := true })
    | some state => do
      let start := s.offset
      let (outcome, matcher) ← s.matcher.scan state
      match outcome with
      | .emitted found =>
        Logged.emit (.token found)
        return (some (.ok found), { s with matcher, finished := found.isEmpty })
      | .missed why => skip { s with matcher } why start

/-- Switches the mode. If the mode so far is unknown, only that had stopped the stream. -/
def setMode (s : TokenStream σ η) (mode : Nat) : Logged (TokenStream σ η) := do
  Logged.emit (.modeSet mode)
  let known := (s.matcher.automaton.startState? s.mode).isSome
  return { s with mode, finished := s.finished && known }

/-- Moves the source and goes on. -/
def setOffset (s : TokenStream σ η) (offset : Nat) : TokenStream σ η :=
  { s with matcher := s.matcher.seek offset, finished := false }

/-- The line and column of an offset. -/
def position (s : TokenStream σ η) (offset : Nat) : Except Fault Position :=
  Source.position s.matcher.source offset

/-- A match with the positions of its ends. -/
def locate (s : TokenStream σ η) (m : Match) : Except Fault LocatedMatch := do
  return ⟨m.symbol, m.span, ← s.position m.start, ← s.position m.stop⟩

/-- The next token with its positions. -/
def nextLocated (s : TokenStream σ η) :
    Logged (Option (Yield LocatedMatch) × TokenStream σ η) := do
  let (item, s) ← s.next
  match item with
  | none => return (none, s)
  | some (.error e) => return (some (.error e), s)
  | some (.ok m) => return (some (.ok (← s.locate m)), s)

end TokenStream

end Munch
