/-!
# Matching strategies

How a matcher resolves the accepting states of a scan: it commits to the longest match, or it
offers all of them to the action hook until one is accepted.
-/

namespace Munch

/-- How a matcher resolves the accepting states of a scan. -/
inductive Strategy where
  /-- Commit to the longest match and its first symbol. -/
  | greedy
  /-- Offer every match, longest first, until one is accepted. -/
  | backtracking
deriving DecidableEq, Repr

namespace Strategy

/-- The name of a strategy. -/
def name : Strategy → String
  | .greedy => "Greedy"
  | .backtracking => "Backtracking"

/-- Unless a strategy is forced, backtracking is used if and only if some action may reject. -/
def select (forced : Option Strategy) (mayReject : Bool) : Strategy :=
  forced.getD (if mayReject then .backtracking else .greedy)

end Strategy

end Munch
