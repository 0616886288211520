import Munch.RejectRule
import Munch.TokenStream

/-!
# Sessions

A session is a matcher that is driven by commands, one after the other. It moves between stages:
a matcher can be turned into a token stream and back, a stream into one with positions, and a
matcher can be taken apart into its source and its hook.

* `Command` and `Reply` are the questions and answers of a session.
* `Session.perform` carries out one command, `Session.run` a list of them. A run ends with the
  first command that faults.
* After every token that a stream yields, the first fitting `ModeSwitch` is applied.
-/

namespace Munch

/-- Switches the mode after a token. -/
structure ModeSwitch where
  symbol : SymbolId
  /-- The mode in which the switch applies; without one it applies in every mode. -/
  within : Option Nat
  target : Nat
deriving Repr

/-- Whether the switch applies after a token in the given mode. -/
def ModeSwitch.applies (w : ModeSwitch) (symbol : SymbolId) (mode : Nat) : Bool :=
  w.symbol = symbol && w.within.all (· = mode)

/-- What a session is at the moment. -/
inductive Stage (σ : Type) where
  | matching (matcher : Matcher σ RuleState)
  | streaming (stream : TokenStream σ RuleState)
  | locating (stream : TokenStream σ RuleState)
  | parts (source : σ) (hook : Hook RuleState)

/-- A command of a session. -/
inductive Command where
  | scan (state : StateId)
  | readToken (state : StateId)
  | strategy
  | hookCount
  | readNext
  | setCursor (cursor : Nat)
  | setReject (rules : List RejectRule)
  | stream
  | unstream
  | withPositions
  | takeApart
  | offset
  | mode
  | modeName (mode : Nat)
  | setMode (mode : Nat)
  | position (offset : Nat)
  | setOffset (offset : Nat)
  /-- Up to `count` items of the stream. -/
  | take (count : Nat)
deriving Repr

/-- An item of a stream, with the text that a token covers. -/
inductive Item where
  | token (m : Match) (text : Option String)
  | located (m : LocatedMatch) (text : Option String)
  | failure (cause : StreamError)
deriving Repr

/-- The answer to a command. -/
inductive Reply where
  | done
  | outcome (outcome : Outcome)
  | produced (yes : Bool)
  | strategy (strategy : Strategy)
  | hookCalls (count : Nat)
  | takenApart (hookCalls : Nat)
  | character (c : Option Char)
  | number (n : Nat)
  | modeName (name : Option String)
  | position (p : Position)
  /-- Items of the stream, and whether the stream came to its end. -/
  | items (items : List Item) (ended : Bool)
  /-- The command makes no sense at this stage. -/
  | unavailable
deriving Repr

/-- A matcher in use. -/
structure Session (σ : Type) where
  stage : Stage σ
  switches : List ModeSwitch := []

variable {σ : Type} [Source σ]

namespace Stage

/-- The source of the session. -/
def source : Stage σ → σ
  | .matching matcher => matcher.source
  | .streaming stream => stream.matcher.source
  | .locating stream => stream.matcher.source
  | .parts source _ => source

/-- The hook of the session. -/
def hook : Stage σ → Hook RuleState
  | .matching matcher => matcher.hook
  | .streaming stream => stream.matcher.hook
  | .locating stream => stream.matcher.hook
  | .parts _ hook => hook

/-- The session with another source. -/
def setSource (source : σ) : Stage σ → Stage σ
  | .matching matcher => .matching { matcher with source }
  | .streaming stream => .streaming { stream with matcher.source := source }
  | .locating stream => .locating { stream with matcher.source := source }
  | .parts _ hook => .parts source hook

/-- The session with another hook. -/
def setHook (hook : Hook RuleState) : Stage σ → Stage σ
  | .matching matcher => .matching { matcher with hook }
  | .streaming stream => .streaming { stream with matcher.hook := hook }
  | .locating stream => .locating { stream with matcher.hook := hook }
  | .parts source _ => .parts source hook

/-- The matcher of the session, unless it has been taken apart. -/
def matcher? : Stage σ → Option (Matcher σ RuleState)
  | .matching matcher => some matcher
  | .streaming stream => some stream.matcher
  | .locating stream => some stream.matcher
  | .parts _ _ => none

/-- The token stream, if the session is one. -/
def stream? : Stage σ → Option (TokenStream σ RuleState)
  | .streaming stream => some stream
  | .locating stream => some stream
  | _ => none

/-- The stage with another stream in place of its own. -/
def setStream (stream : TokenStream σ RuleState) : Stage σ → Stage σ
  | .streaming _ => .streaming stream
  | .locating _ => .locating stream
  | stage => stage

/-- Reads one token outside of any stream. -/
def scan? (state : StateId) : Stage σ → Option (Logged (Outcome × Stage σ))
  | .matching matcher => some do
    let (outcome, matcher) ← matcher.scan state
    return (outcome, .matching matcher)
  | .streaming stream => some do
    let (outcome, matcher) ← stream.matcher.scan state
    return (outcome, .streaming { stream with matcher })
  | _ => none

end Stage

/-- Applies the first switch that fits a token of the stream. -/
def switchMode (switches : List ModeSwitch) (symbol : SymbolId)
    (stream : TokenStream σ RuleState) : Logged (TokenStream σ RuleState) :=
  match switches.find? (·.applies symbol stream.mode) with
  | some switch => stream.setMode switch.target
  | none => return stream

/-- Turns what a stream yielded into an item; a token may switch the mode. -/
def settle {α : Type} (switches : List ModeSwitch) (symbol : α → SymbolId) (item : α → Item)
    (yielded : Option (Yield α)) (stream : TokenStream σ RuleState) :
    Logged (Option Item × TokenStream σ RuleState) :=
  match yielded with
  | none => return (none, stream)
  | some (.error cause) => return (some (.failure cause), stream)
  | some (.ok a) => do return (some (item a), ← switchMode switches (symbol a) stream)

/-- The next item of a stream, with positions if `located`. -/
def nextItem (switches : List ModeSwitch) (located : Bool) (stream : TokenStream σ RuleState) :
    Logged (Option Item × TokenStream σ RuleState) := do
  if located then
    let (yielded, stream) ← stream.nextLocated
    let text (span : Span) := Source.excerpt? stream.matcher.source span
    settle switches (·.symbol) (fun m => .located m (text m.span)) yielded stream
  else
    let (yielded, stream) ← stream.next
    let text (span : Span) := Source.excerpt? stream.matcher.source span
    settle switches (·.symbol) (fun m => .token m (text m.span)) yielded stream

/-- Up to `count` items of a stream, and whether it came to its end. -/
def takeItems (switches : List ModeSwitch) (located : Bool) :
    Nat → TokenStream σ RuleState → Logged (List Item × Bool × TokenStream σ RuleState)
  | 0, stream => return ([], false, stream)
  | count + 1, stream => do
    let (item, stream) ← nextItem switches located stream
    match item with
    | none => return ([], true, stream)
    | some item =>
      let (items, ended, stream) ← takeItems switches located count stream
      return (item :: items, ended, stream)

namespace Session

/-- Answers a command that concerns the token stream. -/
def performStream (s : Session σ) (stream : TokenStream σ RuleState) :
    Command → Logged (Reply × Session σ)
  | .offset => return (.number stream.offset, s)
  | .mode => return (.number stream.mode, s)
  | .modeName mode => return (.modeName (stream.matcher.automaton.modeName? mode), s)
  | .setMode mode => do
    return (.done, { s with stage := s.stage.setStream (← stream.setMode mode) })
  | .position offset => do return (.position (← stream.position offset), s)
  | .setOffset offset =>
    return (.done, { s with stage := s.stage.setStream (stream.setOffset offset) })
  | .take count => do
    let located := match s.stage with
      | .locating _ => true
      | _ => false
    let (items, ended, stream) ← takeItems s.switches located count stream
    return (.items items ended, { s with stage := s.stage.setStream stream })
  | _ => return (.unavailable, s)

/-- Carries out one command. -/
def perform (s : Session σ) (command : Command) : Logged (Reply × Session σ) :=
  match command, s.stage with
  | .scan state, stage =>
    match stage.scan? state with
    | none => return (.unavailable, s)
    | some scan => do
      let (outcome, stage) ← scan
      return (.outcome outcome, { s with stage })
  | .readToken state, stage =>
    match stage.scan? state with
    | none => return (.unavailable, s)
    | some scan => do
      let (outcome, stage) ← scan
      return (.produced outcome.isEmitted, { s with stage })
  | .hookCount, stage => return (.hookCalls stage.hook.state.calls, s)
  | .readNext, stage =>
    match Source.read stage.source with
    | none => return (.character none, s)
    | some (c, source) => return (.character (some c), { s with stage := stage.setSource source })
  | .setCursor cursor, stage =>
    return (.done, { s with stage := stage.setSource (Source.seek stage.source cursor) })
  | .setReject rules, stage =>
    let hook := stage.hook
    return (.done, { s with stage := stage.setHook { hook with state.rules := rules } })
  | .strategy, stage =>
    match stage.matcher? with
    | some matcher => return (.strategy matcher.strategy, s)
    | none => return (.unavailable, s)
  | .stream, .matching matcher => return (.done, { s with stage := .streaming { matcher } })
  | .takeApart, .matching matcher =>
    return (.takenApart matcher.hook.state.calls,
      { s with stage := .parts matcher.source matcher.hook })
  | .unstream, .streaming stream => return (.done, { s with stage := .matching stream.matcher })
  | .withPositions, .streaming stream => return (.done, { s with stage := .locating stream })
  | command, stage =>
    match stage.stream? with
    | some stream => s.performStream stream command
    | none => return (.unavailable, s)

/-- What one command came to: the reply and the cursor behind it, or a fault. -/
structure Entry where
  result : Except Fault (Reply × Nat)
  events : List Event

/-- Carries out commands in order, up to the first that faults. -/
def run : List Command → Session σ → List Entry
  | [], _ => []
  | command :: rest, s =>
    let performed := s.perform command
    match performed.result with
    | .error fault => [⟨.error fault, performed.events⟩]
    | .ok (reply, s) =>
      ⟨.ok (reply, Source.cursor s.stage.source), performed.events⟩ :: run rest s

end Session

end Munch
