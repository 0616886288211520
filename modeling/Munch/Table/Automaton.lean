import Munch.Automaton
import Munch.Table.Basic

/-!
# Tables as automata

A table is an automaton. `Table.bareAutomaton` keeps its states and symbols only and leaves
rejection and modes to the defaults.
-/

namespace Munch.Table

/-- The automaton of a table. -/
def automaton (t : Table) : Automaton where
  transition := t.transition
  accepting := t.accepting
  action := t.action
  mayReject := t.mayReject
  startState? := t.startState?
  modeName? := t.modeName?

/-- The states and symbols of a table, without its modes and its rejection flags. -/
def bareAutomaton (t : Table) : Automaton where
  transition := t.transition
  accepting := t.accepting
  action := t.action

end Munch.Table
