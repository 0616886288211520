import Munch.Hook
import Munch.Outcome
import Munch.Strategy
import Munch.Text.Escape

/-!
# Events

What the library reports about its work. An event is a value; `Event.line` words it as a log line
with its level in front.
-/

namespace Munch

/-- The level of a log line. -/
inductive Level where
  | trace
  | debug
  | warn
deriving DecidableEq, Repr

/-- The name of a level at the front of a log line. -/
def Level.name : Level → String
  | .trace => "TRACE"
  | .debug => "DEBUG"
  | .warn => "WARN"

/-- Something the library reports. -/
inductive Event where
  /-- A draft passed validation. -/
  | validated (states symbols modes : Nat)
  /-- A matcher was made with this strategy. -/
  | selected (strategy : Strategy)
  /-- A scan reached no accepting state. -/
  | noMatch (start : Nat)
  /-- A scan recorded this many accepting states. -/
  | recorded (count start : Nat)
  /-- The hook was invoked. -/
  | invoked (call : Invocation)
  /-- The hook rejected a match that is produced nevertheless. -/
  | overruled (m : Match)
  /-- The hook rejected a match and the next alternative follows. -/
  | rejected (m : Match)
  /-- The hook rejected every alternative. -/
  | exhausted (start : Nat)
  /-- A stream yields a token. -/
  | token (m : Match)
  /-- A stream skips a character after a scan that missed. -/
  | skipped (why : Miss) (start : Nat) (character : Char)
  /-- A stream was switched to another mode. -/
  | modeSet (mode : Nat)
deriving DecidableEq, Repr

namespace Event

/-- How much attention an event asks for. -/
def level : Event → Level
  | .validated .. | .noMatch .. | .recorded .. | .invoked .. | .token .. | .modeSet .. => .trace
  | .selected .. | .rejected .. | .exhausted .. | .skipped .. => .debug
  | .overruled .. => .warn

/-- The wording of an event. -/
def text : Event → String
  | .validated states symbols modes =>
    s!"Validated table with {states} states, {symbols} symbols and {modes} modes"
  | .selected strategy => s!"Using the {strategy.name} matcher"
  | .noMatch start => s!"No match at {start}"
  | .recorded count start => s!"{count} accepting states recorded from {start}"
  | .invoked call => s!"Action {call.action} on {call.offered.describe}: {call.verdict.name}"
  | .overruled m =>
    s!"Action of symbol {m.symbol} rejected {m.describe}, but the greedy matcher cannot backtrack"
  | .rejected m => s!"Symbol {m.symbol} rejected {m.describe}"
  | .exhausted start => s!"All alternatives from {start} were rejected"
  | .token m => s!"Token {m.describe}"
  | .skipped why start character =>
    let shown := Text.quoted character
    s!"{why.name} at {start}, skipping {shown}"
  | .modeSet mode => s!"Set mode to {mode}"

/-- The log line of an event. -/
def line (e : Event) : String := s!"{e.level.name} {e.text}"

/-- The hook call that an event reports. -/
def call? : Event → Option Invocation
  | .invoked call => some call
  | _ => none

end Event

/-- The hook calls among the given events, in order. -/
def callsOf (events : List Event) : List Invocation := events.filterMap Event.call?

@[simp]
theorem callsOf_nil : callsOf [] = [] := rfl

@[simp]
theorem callsOf_append (a b : List Event) : callsOf (a ++ b) = callsOf a ++ callsOf b := by
  simp [callsOf]

end Munch
