/-!
# Faults

A fault is a broken contract: the caller used an index, a span or a position that the called
operation does not admit. Faults stop a computation; they are kept apart from the ordinary
errors, which are results like any other.

* `Fault` lists the contracts that can be broken, `Fault.message` words them.
* `fetch` and `store` are the checked accesses to an array.
-/

namespace Munch

/-- A broken contract. -/
inductive Fault where
  /-- An access at `index` to a collection of `size` elements. -/
  | indexOutOfBounds (size index : Nat)
  /-- A span that would end before it starts. -/
  | spanReversed (start stop : Nat)
  /-- A position with a zero line or column. -/
  | positionNotOneBased
  /-- An accepting state recorded at a smaller position than the one before it. -/
  | positionsDecrease
deriving DecidableEq, Repr

/-- The wording of a fault. -/
def Fault.message : Fault → String
  | .indexOutOfBounds size index =>
    s!"index out of bounds: the len is {size} but the index is {index}"
  | .spanReversed start stop => s!"span start {start} is behind its end {stop}"
  | .positionNotOneBased => "positions are 1-based"
  | .positionsDecrease => "accepting positions must not decrease"

/-- The element at `i`; an index behind the end is a fault. -/
def fetch {α : Type} (xs : Array α) (i : Nat) : Except Fault α :=
  if h : i < xs.size then .ok xs[i] else .error (.indexOutOfBounds xs.size i)

/-- The array with `x` in place of the element at `i`; an index behind the end is a fault. -/
def store {α : Type} (xs : Array α) (i : Nat) (x : α) : Except Fault (Array α) :=
  if i < xs.size then .ok (xs.setIfInBounds i x) else .error (.indexOutOfBounds xs.size i)

/-- Inside the bounds `fetch` is the plain access. -/
theorem fetch_of_lt {α : Type} {xs : Array α} {i : Nat} (h : i < xs.size) :
    fetch xs i = .ok xs[i] := by
  simp [fetch, h]

/-- What was stored is fetched again. -/
theorem fetch_store {α : Type} {xs ys : Array α} {i : Nat} {x : α} (h : store xs i x = .ok ys) :
    fetch ys i = .ok x := by
  unfold store at h
  split at h
  · cases h
    simp [fetch, *]
  · cases h

end Munch
