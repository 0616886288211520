import Munch.Source.Basic

/-!
# Labelled sources

A source whose cursors are arbitrary numbers: every character carries the label of the place
before it, and the end of the input has a label of its own. Labels may repeat and need not grow;
seeking goes to the first place with the label, if there is one. All places are on line one.
-/

namespace Munch

/-- Characters with a label in front of each, and a label for the end. -/
structure LabelledSource where
  steps : Array (Nat × Char)
  finish : Nat
  index : Nat := 0
deriving Repr

namespace LabelledSource

/-- The labels of all places, the end last. -/
def labels (s : LabelledSource) : Array Nat := (s.steps.map (·.1)).push s.finish

/-- The next character. -/
def read (s : LabelledSource) : Option (Char × LabelledSource) :=
  if h : s.index < s.steps.size then some (s.steps[s.index].2, { s with index := s.index + 1 })
  else none

/-- The label of the current place. -/
def cursor (s : LabelledSource) : Nat :=
  if h : s.index < s.steps.size then s.steps[s.index].1 else s.finish

/-- Moves to the first place with the given label; without one nothing happens. -/
def seek (s : LabelledSource) (label : Nat) : LabelledSource :=
  { s with index := (s.labels.findIdx? (· = label)).getD s.index }

instance : Source LabelledSource where
  read := read
  cursor := cursor
  seek := seek
  position _ label := Position.make 1 (label + 1)
  excerpt? _ _ := none
  remaining s := s.steps.size - s.index
  remaining_lt {s c s'} h := by
    unfold read at h
    split at h
    · cases h
      simp only
      omega
    · cases h

end LabelledSource

end Munch
