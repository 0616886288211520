import Munch.Fault

/-!
# Positions

A position is a line and a column, both counted from one, ordered by line first.

* `Position.make` refuses a zero.
* `Position.compare` is the three-way form of the order, `compare_ne_gt` ties it to `≤`.
-/

namespace Munch

/-- A line and a column, both counted from one. -/
structure Position where
  line : Nat
  column : Nat
deriving DecidableEq, Repr

namespace Position

/-- The position with the given coordinates; a zero is a fault. -/
def make (line column : Nat) : Except Fault Position :=
  if 1 ≤ line ∧ 1 ≤ column then .ok ⟨line, column⟩ else .error .positionNotOneBased

/-- Positions are printed as `line:column`. -/
instance : ToString Position := ⟨fun p => s!"{p.line}:{p.column}"⟩

/-- The line decides, the column breaks ties. -/
instance : LE Position :=
  ⟨fun a b => a.line < b.line ∨ a.line = b.line ∧ a.column ≤ b.column⟩

/-- The line decides, the column breaks ties. -/
instance : LT Position :=
  ⟨fun a b => a.line < b.line ∨ a.line = b.line ∧ a.column < b.column⟩

instance (a b : Position) : Decidable (a ≤ b) :=
  inferInstanceAs (Decidable (a.line < b.line ∨ a.line = b.line ∧ a.column ≤ b.column))

instance (a b : Position) : Decidable (a < b) :=
  inferInstanceAs (Decidable (a.line < b.line ∨ a.line = b.line ∧ a.column < b.column))

/-- The three-way comparison of two positions. -/
def compare (a b : Position) : Ordering :=
  (Ord.compare a.line b.line).then (Ord.compare a.column b.column)

theorem le_def {a b : Position} :
    a ≤ b ↔ a.line < b.line ∨ a.line = b.line ∧ a.column ≤ b.column := Iff.rfl

theorem lt_def {a b : Position} :
    a < b ↔ a.line < b.line ∨ a.line = b.line ∧ a.column < b.column := Iff.rfl

/-- The comparison decides the order. -/
theorem compare_ne_gt {a b : Position} : a.compare b ≠ .gt ↔ a ≤ b := by
  rw [le_def, compare]
  rcases Nat.lt_trichotomy a.line b.line with h | h | h
  · simp [Nat.compare_eq_lt.2 h, h]
  · simp [h, Nat.compare_ne_gt]
  · simp [Nat.compare_eq_gt.2 h, Ordering.then]
    omega

theorem make_of_pos {line column : Nat} (hl : 1 ≤ line) (hc : 1 ≤ column) :
    make line column = .ok ⟨line, column⟩ := by
  simp [make, hl, hc]

end Position

end Munch
