import Munch.Match

/-!
# Action hooks

A hook decides on every match that a scan offers to it. It may remember what it has seen: a hook
is a state together with the reaction to an offer, and invoking it yields the verdict and the
hook in its next state.

`Invocation` is the record of one call.
-/

namespace Munch

/-- The answer of a hook to a match. -/
inductive Verdict where
  | accept
  | reject
deriving DecidableEq, Repr

namespace Verdict

/-- The name of a verdict, as log lines show it. -/
def name : Verdict → String
  | .accept => "Accept"
  | .reject => "Reject"

/-- Whether the match was turned down. -/
def isReject : Verdict → Bool
  | .accept => false
  | .reject => true

/-- The verdict that rejects if and only if told so. -/
def ofReject (rejected : Bool) : Verdict := if rejected then .reject else .accept

/-- A hook that says nothing accepts. -/
instance : Inhabited Verdict := ⟨.accept⟩

@[simp]
theorem isReject_ofReject (rejected : Bool) : (ofReject rejected).isReject = rejected := by
  cases rejected <;> rfl

end Verdict

/-- A decision procedure for matches, with a state of type `η`. -/
structure Hook (η : Type) where
  state : η
  react : η → ActionId → Match → Verdict × η

namespace Hook

variable {η : Type}

/-- Offers a match to the hook. -/
def invoke (hook : Hook η) (action : ActionId) (m : Match) : Verdict × Hook η :=
  let (verdict, state) := hook.react hook.state action m
  (verdict, { hook with state })

/-- The hook that accepts everything. -/
def acceptAll : Hook Unit := ⟨(), fun _ _ _ => (.accept, ())⟩

end Hook

/-- One call of a hook: what was offered, where the source stood, and the answer. -/
structure Invocation where
  action : ActionId
  offered : Match
  cursor : Nat
  verdict : Verdict
deriving DecidableEq, Repr

end Munch
