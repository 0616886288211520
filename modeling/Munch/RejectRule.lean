import Munch.Hook
import Munch.Text.Width

/-!
# Hooks given by rules

A hook whose decisions are described by data. It rejects a match if one of its rules applies; a
rule applies if all of its conditions hold, and a condition that is not given always holds.

The hook counts its calls, and a rule may be about the number of a call. Conditions on the text
are about the part of `input` that the match covers and fail if there is no such part.
-/

namespace Munch

/-- A conjunction of conditions on an offered match. -/
structure RejectRule where
  /-- The symbol is one of these. -/
  symbols : Option (List SymbolId) := none
  /-- The action is one of these. -/
  actions : Option (List ActionId) := none
  /-- The number of the call, from zero, is one of these. -/
  calls : Option (List Nat) := none
  /-- The match covers exactly this text. -/
  text : Option (List Char) := none
  /-- The match covers a text that begins with this one. -/
  opening : Option (List Char) := none
  /-- The match starts here. -/
  start : Option Nat := none
  /-- The match stops here. -/
  stop : Option Nat := none
  /-- The match is at least this long. -/
  minLength : Option Nat := none
  /-- The match is at most this long. -/
  maxLength : Option Nat := none
deriving Repr

/-- Whether all conditions of the rule hold for call number `call`. -/
def RejectRule.applies (r : RejectRule) (input : List Char) (call : Nat) (action : ActionId)
    (m : Match) : Bool :=
  let covered := Text.slice? input m.start m.stop
  r.symbols.all (·.contains m.symbol)
  && r.actions.all (·.contains action)
  && r.calls.all (·.contains call)
  && r.text.all (fun text => covered.any (· == text))
  && r.opening.all (fun text => covered.any text.isPrefixOf)
  && r.start.all (· == m.start)
  && r.stop.all (· == m.stop)
  && r.minLength.all (· ≤ m.length)
  && r.maxLength.all (m.length ≤ ·)

/-- What a hook given by rules remembers. -/
structure RuleState where
  input : List Char
  rules : List RejectRule
  /-- The number of calls so far. -/
  calls : Nat := 0
deriving Repr

/-- Rejects a match if any rule applies, and counts the call. -/
def RuleState.react (s : RuleState) (action : ActionId) (m : Match) : Verdict × RuleState :=
  let rejected := s.rules.any (·.applies s.input s.calls action m)
  (.ofReject rejected, { s with calls := s.calls + 1 })

/-- The hook that rejects what the rules say. -/
def ruleHook (input : List Char) (rules : List RejectRule) : Hook RuleState :=
  ⟨{ input, rules }, RuleState.react⟩

end Munch
