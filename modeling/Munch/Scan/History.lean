import Munch.Scan.Forward

/-!
# Accepting histories

The accepting states of one scan, kept as a stack with the latest, and so the longest match, on
top. Positions on the stack never decrease upwards; `History.push` faults on a state that would
break this.

* `History.push` and `History.pop?` work on the top of the stack, `History.clear` empties it.
* `History.candidates` lists what a history offers: longest match first and, at the same state, the
  symbols in their order. `candidates_push` and `candidates_pop?` say what the two operations do
  to it.
-/

namespace Munch

/-- The accepting states of one scan, the latest first. -/
structure History where
  records : List Acceptance := []
deriving DecidableEq, Repr

/-- A match that may be offered: the symbol and where it stops. -/
structure Candidate where
  symbol : SymbolId
  stop : Nat
deriving DecidableEq, Repr

/-- The candidates of one accepting state. -/
def Acceptance.candidates (a : Acceptance) : List Candidate :=
  a.symbols.map (⟨·, a.position⟩)

namespace History

/-- Records an accepting state; a position before that of the latest one is a fault. -/
def push (h : History) (a : Acceptance) : Except Fault History :=
  match h.records with
  | [] => .ok ⟨[a]⟩
  | top :: older =>
    if top.position ≤ a.position then .ok ⟨a :: top :: older⟩ else .error .positionsDecrease

/-- Takes the latest record off. -/
def pop? (h : History) : Option (Acceptance × History) :=
  match h.records with
  | [] => none
  | top :: older => some (top, ⟨older⟩)

/-- Forgets all records. -/
def clear (_ : History) : History := {}

/-- Whether nothing is recorded. -/
def isEmpty (h : History) : Bool := h.records.isEmpty

/-- The number of recorded states. -/
def size (h : History) : Nat := h.records.length

/-- What the history offers, in the order in which it is to be tried. -/
def candidates (h : History) : List Candidate := h.records.flatMap Acceptance.candidates

/-- Pushing an accepting state offers its symbols before everything else. -/
theorem candidates_push {h h' : History} {a : Acceptance} (ok : h.push a = .ok h') :
    h'.candidates = a.candidates ++ h.candidates := by
  obtain ⟨records⟩ := h
  cases records with
  | nil => cases ok; rfl
  | cons top older =>
    simp only [push] at ok
    split at ok
    · cases ok; rfl
    · cases ok

theorem size_lt_of_pop? {h older : History} {top : Acceptance} (hpop : h.pop? = some (top, older)) :
    older.size < h.size := by
  obtain ⟨records⟩ := h
  cases records with
  | nil => cases hpop
  | cons first rest =>
    cases hpop
    exact Nat.lt_succ_self _

/-- Popping takes the first offers off. -/
theorem candidates_pop? {h older : History} {top : Acceptance} (hpop : h.pop? = some (top, older)) :
    h.candidates = top.candidates ++ older.candidates := by
  obtain ⟨records⟩ := h
  cases records with
  | nil => cases hpop
  | cons first rest => cases hpop; rfl

end History

end Munch
