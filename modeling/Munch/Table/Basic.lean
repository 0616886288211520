import Std.Data.HashMap
import Munch.CharRange
import Munch.Fault
import Munch.Ident
import Munch.Search

/-!
# Tables

A table is a deterministic automaton over characters, written out row by row.

* `Row` is one state: its character transitions, its end-of-input transition and the symbols it
  accepts. `Symbol` is a lexical rule, `Mode` a named start state.
* `Draft` is what a caller assembles, without any guarantee. `Table` is a draft that passed
  validation, together with an index of the symbol names.
* `Row.follow?` looks a character up by binary search over the sorted transitions.
* The look-ups of a table by state or symbol fault on an index behind the end.
-/

namespace Munch

/-- A transition on the characters of a range. -/
structure Edge where
  range : CharRange
  target : StateId
deriving DecidableEq, Repr

/-- A state of an automaton. -/
structure Row where
  /-- The transitions on characters. -/
  edges : Array Edge := #[]
  /-- The transition on the end of the input. -/
  atEnd : Option StateId := none
  /-- The accepted symbols. -/
  accepting : List SymbolId := []
deriving DecidableEq, Repr

/-- A lexical rule. -/
structure Symbol where
  name : String
  /-- The handle given to the hook; without one it is the number of the symbol. -/
  action : Option ActionId := none
  /-- Whether the action may reject a match. -/
  rejectable : Bool := false
deriving DecidableEq, Repr

/-- A named start state. -/
structure Mode where
  name : String
  start : StateId
deriving DecidableEq, Repr

/-- The data of a table before validation. -/
structure Draft where
  rows : Array Row := #[]
  symbols : Array Symbol := #[]
  modes : Array Mode := #[]
deriving DecidableEq, Repr

/-- A validated table. -/
structure Table where
  rows : Array Row
  symbols : Array Symbol
  modes : Array Mode
  /-- The number of each symbol, by name. -/
  names : Std.HashMap String SymbolId

namespace Row

/-- Whether the row accepts anything. -/
def isAccepting (row : Row) : Bool := !row.accepting.isEmpty

/-- The target on a character: of the edges that start at or before it, the last one decides. -/
def follow? (row : Row) (c : Char) : Option StateId :=
  match Search.partitionPointOf row.edges (·.range.first ≤ c) with
  | 0 => none
  | i + 1 => row.edges[i]?.bind fun edge =>
    if edge.range.contains c then some edge.target else none

/-- The target on a character, or on the end of the input. -/
def step (row : Row) : Option Char → Option StateId
  | some c => row.follow? c
  | none => row.atEnd

end Row

namespace Table

/-- The data of the table without its index. -/
def toDraft (t : Table) : Draft := ⟨t.rows, t.symbols, t.modes⟩

/-- The state entered from `state` on `input`, where `none` is the end of the input. -/
def transition (t : Table) (state : StateId) (input : Option Char) :
    Except Fault (Option StateId) := do
  let row ← fetch t.rows state.index
  return row.step input

/-- The symbols that a state accepts, highest priority first. -/
def accepting (t : Table) (state : StateId) : Except Fault (List SymbolId) := do
  let row ← fetch t.rows state.index
  return row.accepting

/-- The action handle of a symbol. -/
def action (t : Table) (symbol : SymbolId) : Except Fault ActionId := do
  let entry ← fetch t.symbols symbol.index
  return entry.action.getD ⟨symbol.raw⟩

/-- Whether any action may reject a match. -/
def mayReject (t : Table) : Bool := t.symbols.any (·.rejectable)

/-- The state in which a mode starts. -/
def startState? (t : Table) (mode : Nat) : Option StateId := t.modes[mode]?.map (·.start)

/-- The name of a mode. -/
def modeName? (t : Table) (mode : Nat) : Option String := t.modes[mode]?.map (·.name)

/-- The symbol with the given name. -/
def symbolId? (t : Table) (name : String) : Option SymbolId := t.names[name]?

/-- The name of a symbol. -/
def symbolName? (t : Table) (symbol : SymbolId) : Option String :=
  t.symbols[symbol.index]?.map (·.name)

end Table

end Munch
