/-!
# Character ranges

An inclusive range of characters. A range as given by a caller may be inverted; it then contains
nothing, and table validation refuses it.
-/

namespace Munch

/-- The characters from `first` to `last`, both included. -/
structure CharRange where
  first : Char
  last : Char
deriving DecidableEq, Repr

namespace CharRange

/-- The range that holds one character. -/
def single (c : Char) : CharRange := ⟨c, c⟩

/-- Whether a character lies in the range. -/
def contains (r : CharRange) (c : Char) : Bool := r.first ≤ c ∧ c ≤ r.last

/-- A range whose last character lies before its first. -/
def isInverted (r : CharRange) : Bool := r.last < r.first

/-- The three-way comparison of two ranges, first characters first. -/
def compare (a b : CharRange) : Ordering :=
  (Ord.compare a.first.toNat b.first.toNat).then (Ord.compare a.last.toNat b.last.toNat)

theorem contains_iff {r : CharRange} {c : Char} :
    r.contains c = true ↔ r.first ≤ c ∧ c ≤ r.last := by
  simp [contains]

theorem contains_single {a c : Char} : (single a).contains c = true ↔ c = a := by
  rw [contains_iff]
  constructor
  · rintro ⟨hfirst, hlast⟩
    exact Char.le_antisymm hlast hfirst
  · rintro rfl
    exact ⟨Char.le_refl _, Char.le_refl _⟩

end CharRange

end Munch
