import Munch.Match

/-!
# Outcomes of a scan

A scan emits a match or misses, and there are two reasons to miss.
-/

namespace Munch

/-- Why a scan produced no token. -/
inductive Miss where
  /-- No accepting state was reached. -/
  | noMatch
  /-- Accepting states were reached, but every alternative was rejected. -/
  | rejected
deriving DecidableEq, Repr

/-- The name of a miss, as log lines show it. -/
def Miss.name : Miss → String
  | .noMatch => "NoMatch"
  | .rejected => "Rejected"

/-- What a scan produced. -/
inductive Outcome where
  | emitted (m : Match)
  | missed (why : Miss)
deriving DecidableEq, Repr

namespace Outcome

/-- Whether a token was produced. -/
def isEmitted : Outcome → Bool
  | .emitted _ => true
  | .missed _ => false

/-- The token that was produced. -/
def match? : Outcome → Option Match
  | .emitted m => some m
  | .missed _ => none

theorem isEmitted_eq_isSome (o : Outcome) : o.isEmitted = o.match?.isSome := by
  cases o <;> rfl

end Outcome

end Munch
