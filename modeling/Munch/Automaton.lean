import Munch.Fault
import Munch.Ident

/-!
# Automata

What a scan needs to know: transitions on characters and on the end of the input, the symbols
that a state accepts, the action of each symbol, and the modes. The queries by state and symbol
fault on numbers that the automaton does not have.

An automaton that says nothing about rejection and modes is taken to have rejecting actions and
one nameless mode, which starts in state 0.
-/

namespace Munch

/-- A deterministic automaton over characters. -/
structure Automaton where
  /-- The state entered on a character, or on the end of the input (`none`). -/
  transition : StateId → Option Char → Except Fault (Option StateId)
  /-- The symbols accepted in a state, in the order in which they are to be tried. -/
  accepting : StateId → Except Fault (List SymbolId)
  /-- The action of a symbol. -/
  action : SymbolId → Except Fault ActionId
  /-- Whether any action may reject a match. -/
  mayReject : Bool := true
  /-- The state in which a mode starts. -/
  startState? : Nat → Option StateId := fun mode => if mode = 0 then some ⟨0⟩ else none
  /-- The name of a mode. -/
  modeName? : Nat → Option String := fun _ => none

namespace Automaton

/-- The automaton of functions that never fault. -/
def ofFunctions (transition : StateId → Option Char → Option StateId)
    (accepting : StateId → List SymbolId) (action : SymbolId → ActionId) : Automaton where
  transition state input := .ok (transition state input)
  accepting state := .ok (accepting state)
  action symbol := .ok (action symbol)

/-- The automaton with other accepted symbols in the first states. -/
def withAccepting (a : Automaton) (lists : Array (List SymbolId)) : Automaton :=
  { a with
    accepting := fun state =>
      match lists[state.index]? with
      | some symbols => .ok symbols
      | none => a.accepting state }

end Automaton

end Munch
