import Munch.Fault

/-!
# Spans

A span is a stretch `start..stop` of the input, in the units of its source. `Span.make` is the
checked constructor; a span read from outside may be reversed and then counts as empty.
-/

namespace Munch

/-- The stretch from `start`, inclusive, to `stop`, exclusive. -/
structure Span where
  start : Nat := 0
  stop : Nat := 0
deriving DecidableEq, Repr

namespace Span

/-- The span with the given ends; one that would end before it starts is a fault. -/
def make (start stop : Nat) : Except Fault Span :=
  if start ≤ stop then .ok ⟨start, stop⟩ else .error (.spanReversed start stop)

/-- The length, zero for a reversed span. -/
def length (s : Span) : Nat := s.stop - s.start

/-- A span is empty if it does not end behind its start. -/
def isEmpty (s : Span) : Bool := s.stop ≤ s.start

/-- Spans are printed as `start..stop`. -/
instance : ToString Span := ⟨fun s => s!"{s.start}..{s.stop}"⟩

theorem make_of_le {start stop : Nat} (h : start ≤ stop) : make start stop = .ok ⟨start, stop⟩ := by
  simp [make, h]

theorem make_eq_ok {start stop : Nat} {s : Span} (h : make start stop = .ok s) :
    start ≤ stop ∧ s = ⟨start, stop⟩ := by
  unfold make at h
  split at h
  · next hle => exact ⟨hle, (Except.ok.inj h).symm⟩
  · cases h

/-- Exactly the empty spans have length zero. -/
theorem isEmpty_iff (s : Span) : s.isEmpty = true ↔ s.length = 0 := by
  simp [isEmpty, length]
  omega

end Span

end Munch
