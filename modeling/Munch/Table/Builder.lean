import Munch.Table.Validate

/-!
# Building tables call by call

A builder collects states, transitions, symbols and modes in any order. States are numbered in
the order they are added. A transition from a state that has not been added yet creates
placeholder rows up to it, and adding the state later completes its placeholder.

* `BuildCall` is one call, `Builder.apply` its effect, `Builder.run` a whole list of calls.
* `Builder.draft` is what has been collected.
-/

namespace Munch

/-- A call on a builder. -/
inductive BuildCall where
  | symbol (symbol : Symbol)
  | symbols (names : List String)
  | state (accepting : List SymbolId)
  | edge (source : StateId) (range : CharRange) (target : StateId)
  | atEnd (source target : StateId)
  | mode (mode : Mode)
deriving DecidableEq, Repr

/-- A draft in the making. -/
structure Builder where
  draft : Draft := {}
  /-- The number of states added so far; the rows behind them are placeholders. -/
  added : Nat := 0
deriving Repr

namespace Builder

/-- Rows, extended by placeholders so that `index` is one of them. -/
def reserve (rows : Array Row) (index : Nat) : Array Row :=
  rows ++ Array.replicate (index + 1 - rows.size) ({} : Row)

/-- Changes the row at `index`, creating it if need be. -/
def updateRow (b : Builder) (index : Nat) (change : Row → Row) : Builder :=
  { b with draft.rows := (reserve b.draft.rows index).modify index change }

/-- The effect of one call. -/
def apply (b : Builder) : BuildCall → Builder
  | .symbol symbol => { b with draft.symbols := b.draft.symbols.push symbol }
  | .symbols names =>
    { b with draft.symbols := b.draft.symbols ++ names.toArray.map fun name => { name } }
  | .state accepting =>
    { b.updateRow b.added ({ · with accepting }) with added := b.added + 1 }
  | .edge source range target =>
    b.updateRow source.index fun row => { row with edges := row.edges.push ⟨range, target⟩ }
  | .atEnd source target => b.updateRow source.index ({ · with atEnd := some target })
  | .mode mode => { b with draft.modes := b.draft.modes.push mode }

/-- The effect of a list of calls on an empty builder. -/
def run (calls : List BuildCall) : Builder := calls.foldl apply {}

/-- Validates what has been collected. -/
def build (b : Builder) : Logged (Except TableError Table) := b.draft.build

end Builder

end Munch
