import Munch.CharRange
import Munch.Ident
import Munch.Text.Escape

/-!
# Errors

The ordinary failures of the library, as causes with their data. The wording of every cause is in
one place, `message`.

* `TableError`: why a draft is no table.
* `StreamError`: why a token stream yields no token at some point.
* `Error`: either of them, or a failure of the surroundings (unreadable JSON, an output that
  takes no more text).
-/

namespace Munch

/-- Who refers to a state. -/
inductive Referrer where
  /-- A character transition of the state with this index. -/
  | state (index : Nat)
  /-- The end-of-input transition of the state with this index. -/
  | endOfInput (index : Nat)
  /-- The mode with this name. -/
  | mode (name : String)
  /-- Some other place, in the caller's words. -/
  | place (text : String)
deriving DecidableEq, Repr

/-- The wording of a referrer inside an error message. -/
def Referrer.describe : Referrer → String
  | .state index => s!"state {index}"
  | .endOfInput index => s!"the end-of-input transition of state {index}"
  | .mode name => s!"mode {name}"
  | .place text => text

/-- Why a draft is no table. -/
inductive TableError where
  | noStates
  | invalidState (state : Nat) (referrer : Referrer)
  | invalidSymbol (symbol state : Nat)
  | invalidRange (state : Nat) (range : CharRange)
  /-- Two transitions of `state` share characters, the first of them being `shared`. -/
  | overlappingTransitions (state : Nat) (shared : Char)
  | duplicateSymbol (name : String)
deriving DecidableEq, Repr

/-- The wording of a table error. -/
def TableError.message : TableError → String
  | .noStates => "The automaton has no states"
  | .invalidState state referrer =>
    let place := referrer.describe
    s!"State {state} referenced from {place} does not exist"
  | .invalidSymbol symbol state => s!"Symbol {symbol} accepted by state {state} does not exist"
  | .invalidRange state range =>
    let first := Text.quoted range.first
    let last := Text.quoted range.last
    s!"Invalid character range {first}..={last} in state {state}"
  | .overlappingTransitions state shared =>
    let character := Text.quoted shared
    s!"Overlapping transitions in state {state} at {character}"
  | .duplicateSymbol name => s!"Duplicate symbol name '{name}'"

/-- Why a token stream yields no token. -/
inductive StreamError where
  /-- No rule accepts the input at `offset`; `character` was skipped. -/
  | unrecognizedCharacter (character : Char) (offset : Nat)
  /-- The automaton has no such mode. -/
  | unknownMode (mode : Nat)
deriving DecidableEq, Repr

/-- The wording of a stream error. -/
def StreamError.message : StreamError → String
  | .unrecognizedCharacter character offset =>
    let shown := Text.quoted character
    s!"Unrecognized character {shown} at offset {offset}"
  | .unknownMode mode => s!"Unknown mode {mode}"

/-- A failure of an operation of the library. -/
inductive Error where
  | table (cause : TableError)
  | stream (cause : StreamError)
  /-- An output refused to take the text, with its own words. -/
  | output (text : String)
  /-- A text is no JSON document of the expected shape. -/
  | json
deriving DecidableEq, Repr

/-- The wording of an error. Unreadable JSON has none. -/
def Error.message? : Error → Option String
  | .table cause => some cause.message
  | .stream cause => some cause.message
  | .output text => some text
  | .json => none

end Munch
