import Munch.Automaton
import Munch.Source.Basic

/-!
# The forward scan

A scan runs an automaton over a source for as long as there are transitions. Every accepting
state that it enters is handed to a recorder; what is recorded depends on the strategy.

* `Acceptance` is an accepting state as entered: its symbols, of which there is at least one, and
  the cursor behind the characters that led to it.
* `forward` is the scan. The start state is not entered and so never recorded. The end of the
  input is fed to the automaton once. A character without a transition has been read when the
  scan stops. `forward_of_end` and `forward_of_char` are its two equations.
-/

namespace Munch

/-- An accepting state entered by a scan. -/
structure Acceptance where
  /-- The symbol to be tried first. -/
  first : SymbolId
  /-- The symbols to be tried after it, in order. -/
  others : List SymbolId
  /-- The cursor at which the state was entered. -/
  position : Nat
deriving DecidableEq, Repr

/-- The accepted symbols in the order in which they are to be tried. -/
def Acceptance.symbols (a : Acceptance) : List SymbolId := a.first :: a.others

variable {σ β : Type} [Source σ]

/-- Hands a state to the recorder if it accepts anything. -/
def enter (a : Automaton) (record : β → Acceptance → Except Fault β) (state : StateId)
    (position : Nat) (recorded : β) : Except Fault β := do
  match ← a.accepting state with
  | [] => return recorded
  | first :: others => record recorded ⟨first, others, position⟩

/-- Runs the automaton from `state` for as long as there are transitions. -/
def forward (a : Automaton) (record : β → Acceptance → Except Fault β) (state : StateId)
    (source : σ) (recorded : β) : Except Fault (β × σ) :=
  match _h : Source.read source with
  | none => do
    match ← a.transition state none with
    | none => return (recorded, source)
    | some next => return (← enter a record next (Source.cursor source) recorded, source)
  | some (c, source') => do
    match ← a.transition state (some c) with
    | none => return (recorded, source')
    | some next =>
      let recorded ← enter a record next (Source.cursor source') recorded
      forward a record next source' recorded
termination_by Source.remaining source
decreasing_by exact Source.remaining_lt _h

/-- At the end of the input one last transition is tried. -/
theorem forward_of_end {a : Automaton} {record : β → Acceptance → Except Fault β}
    {state : StateId} {source : σ} {recorded : β} (h : Source.read source = none) :
    forward a record state source recorded = (do
      match ← a.transition state none with
      | none => return (recorded, source)
      | some next => return (← enter a record next (Source.cursor source) recorded, source)) := by
  rw [forward]
  split
  · rfl
  · next h' =>
    rw [h] at h'
    cases h'

/-- A character with a transition is followed by the scan from the state entered. -/
theorem forward_of_char {a : Automaton} {record : β → Acceptance → Except Fault β}
    {state : StateId} {source source' : σ} {c : Char} {recorded : β}
    (h : Source.read source = some (c, source')) :
    forward a record state source recorded = (do
      match ← a.transition state (some c) with
      | none => return (recorded, source')
      | some next => do
        let recorded ← enter a record next (Source.cursor source') recorded
        forward a record next source' recorded) := by
  rw [forward]
  split
  · next h' =>
    rw [h] at h'
    cases h'
  · next h' =>
    rw [h] at h'
    cases h'
    rfl

end Munch
