import Munch.Matcher
import Munch.Source.Text

/-!
# The reference for a scan

What a scan of a text is to come to, said without the scan: runs, candidates and replies are plain
lists.

* `entered` — the run of an automaton over a text: one visit for each character up to the first that
  has no transition and, if there is none, a last visit on the end of the text. The state in which
  the run begins is not visited.
* `candidatesOf` — what the visits offer: the latest visit first, the symbols of a state in order.
* `Hook.replies` — the replies of a hook to a list of offers, its state handed on from one to the
  next. `untilAccepted` cuts them off behind the first that is no rejection.
* `Strategy.asked`, `Strategy.outcome`, `restOf` — which of the replies a strategy asks for, what it
  makes of them, and where the source is left.

`Automaton.Closed` is what has to be known of an automaton: a set of states that no transition
leaves and on which no query faults. `Automaton.next?`, `accepted` and `handle` are its queries as
plain functions.
-/

namespace Munch

/-! ## Automata as plain functions -/

namespace Automaton

/-- The state entered from `state`; none where the query faults. -/
def next? (a : Automaton) (state : StateId) (input : Option Char) : Option StateId :=
  (a.transition state input).toOption.join

/-- The symbols that a state accepts; none where the query faults. -/
def accepted (a : Automaton) (state : StateId) : List SymbolId :=
  (a.accepting state).toOption.getD []

/-- The action of a symbol; number zero where the query faults. -/
def handle (a : Automaton) (symbol : SymbolId) : ActionId :=
  (a.action symbol).toOption.getD ⟨0⟩

/-- The queries of the automaton are these functions, which never fault. -/
structure Computes (a : Automaton) (transition : StateId → Option Char → Option StateId)
    (accepting : StateId → List SymbolId) (action : SymbolId → ActionId) : Prop where
  transition_eq : ∀ state input, a.transition state input = .ok (transition state input)
  accepting_eq : ∀ state, a.accepting state = .ok (accepting state)
  action_eq : ∀ symbol, a.action symbol = .ok (action symbol)

/-- A set of states that no transition leaves and on which no query faults. -/
structure Closed (a : Automaton) (P : StateId → Prop) : Prop where
  transition_ok : ∀ {state} input, P state →
    ∃ target, a.transition state input = .ok target ∧ ∀ t, target = some t → P t
  accepting_ok : ∀ {state}, P state →
    ∃ symbols, a.accepting state = .ok symbols ∧ ∀ x ∈ symbols, ∃ action, a.action x = .ok action

variable {a : Automaton} {P : StateId → Prop}

theorem ofFunctions_computes (transition : StateId → Option Char → Option StateId)
    (accepting : StateId → List SymbolId) (action : SymbolId → ActionId) :
    (ofFunctions transition accepting action).Computes transition accepting action :=
  ⟨fun _ _ => rfl, fun _ => rfl, fun _ => rfl⟩

namespace Computes

variable {transition : StateId → Option Char → Option StateId}
  {accepting : StateId → List SymbolId} {action : SymbolId → ActionId}

/-- Functions that never fault are closed on all states. -/
theorem closed (h : a.Computes transition accepting action) : a.Closed fun _ => True :=
  ⟨fun input _ => ⟨_, h.transition_eq _ input, fun _ _ => trivial⟩,
    fun _ => ⟨_, h.accepting_eq _, fun x _ => ⟨_, h.action_eq x⟩⟩⟩

theorem next?_eq (h : a.Computes transition accepting action) : a.next? = transition := by
  funext state input
  simp [next?, h.transition_eq, Except.toOption]

theorem accepted_eq (h : a.Computes transition accepting action) : a.accepted = accepting := by
  funext state
  simp [accepted, h.accepting_eq, Except.toOption]

theorem handle_eq (h : a.Computes transition accepting action) : a.handle = action := by
  funext symbol
  simp [handle, h.action_eq, Except.toOption]

end Computes

namespace Closed

theorem transition_eq (h : a.Closed P) {state : StateId} (hs : P state) (input : Option Char) :
    a.transition state input = .ok (a.next? state input) := by
  obtain ⟨target, ht, _⟩ := h.transition_ok input hs
  simp [next?, ht, Except.toOption]

theorem next?_mem (h : a.Closed P) {state t : StateId} (hs : P state) {input : Option Char}
    (ht : a.next? state input = some t) : P t := by
  obtain ⟨target, htarget, hmem⟩ := h.transition_ok input hs
  rw [h.transition_eq hs] at htarget
  cases htarget
  exact hmem t ht

theorem accepting_eq (h : a.Closed P) {state : StateId} (hs : P state) :
    a.accepting state = .ok (a.accepted state) := by
  obtain ⟨symbols, ha, _⟩ := h.accepting_ok hs
  simp [accepted, ha, Except.toOption]

theorem action_eq (h : a.Closed P) {state : StateId} (hs : P state) {x : SymbolId}
    (hx : x ∈ a.accepted state) : a.action x = .ok (a.handle x) := by
  obtain ⟨symbols, ha, hsym⟩ := h.accepting_ok hs
  rw [h.accepting_eq hs] at ha
  cases ha
  obtain ⟨action, hact⟩ := hsym x hx
  simp [handle, hact, Except.toOption]

end Closed

end Automaton

/-! ## Runs and candidates -/

/-- A state that a run enters, and the offset at which it does. -/
structure Visit where
  state : StateId
  offset : Nat
deriving DecidableEq, Repr

/-- The visits of the run from `state` over a text that begins at `offset`. -/
def entered (next : StateId → Option Char → Option StateId) :
    List Char → StateId → Nat → List Visit
  | [], state, offset =>
    match next state none with
    | none => []
    | some target => [⟨target, offset⟩]
  | c :: rest, state, offset =>
    match next state (some c) with
    | none => []
    | some target =>
      ⟨target, offset + c.utf8Size⟩ :: entered next rest target (offset + c.utf8Size)

/-- What a visit offers. -/
def Visit.candidates (accepting : StateId → List SymbolId) (v : Visit) : List Candidate :=
  (accepting v.state).map (⟨·, v.offset⟩)

/-- What a run offers, in the order in which it is to be tried. -/
def candidatesOf (accepting : StateId → List SymbolId) (visits : List Visit) : List Candidate :=
  visits.reverse.flatMap (Visit.candidates accepting)

/-- A visit lies behind a leading part of the text; an empty one is the whole text. -/
theorem mem_entered {next : StateId → Option Char → Option StateId} {text : List Char}
    {state : StateId} {offset : Nat} {v : Visit} (hv : v ∈ entered next text state offset) :
    ∃ a b, text = a ++ b ∧ v.offset = offset + Text.width a ∧ (a = [] → b = []) := by
  induction text generalizing state offset with
  | nil =>
    rw [entered] at hv
    split at hv
    · cases hv
    · obtain rfl := List.mem_singleton.1 hv
      exact ⟨[], [], rfl, rfl, fun _ => rfl⟩
  | cons c rest ih =>
    rw [entered] at hv
    split at hv
    · cases hv
    · rcases List.mem_cons.1 hv with rfl | hv
      · exact ⟨[c], rest, rfl, by simp, fun h => by cases h⟩
      · obtain ⟨a, b, rfl, ho, _⟩ := ih hv
        exact ⟨c :: a, b, rfl, by rw [ho, Text.width_cons]; omega, fun h => by cases h⟩

theorem le_offset_of_mem_entered {next : StateId → Option Char → Option StateId}
    {text : List Char} {state : StateId} {offset : Nat} {v : Visit}
    (hv : v ∈ entered next text state offset) : offset ≤ v.offset := by
  obtain ⟨a, b, _, ho, _⟩ := mem_entered hv
  omega

/-- A run only goes forward. -/
theorem pairwise_entered (next : StateId → Option Char → Option StateId) (text : List Char)
    (state : StateId) (offset : Nat) :
    (entered next text state offset).Pairwise fun v w => v.offset ≤ w.offset := by
  induction text generalizing state offset with
  | nil =>
    rw [entered]
    split
    · exact .nil
    · exact List.pairwise_singleton _ _
  | cons c rest ih =>
    rw [entered]
    split
    · exact .nil
    · exact List.pairwise_cons.2 ⟨fun v hv => le_offset_of_mem_entered hv, ih _ _⟩

/-- A run does not leave a closed set. -/
theorem state_of_mem_entered {a : Automaton} {P : StateId → Prop} (closed : a.Closed P)
    {text : List Char} {state : StateId} (hs : P state) {offset : Nat} {v : Visit}
    (hv : v ∈ entered a.next? text state offset) : P v.state := by
  induction text generalizing state offset with
  | nil =>
    rw [entered] at hv
    split at hv
    · cases hv
    · rename_i target ht
      obtain rfl := List.mem_singleton.1 hv
      exact closed.next?_mem hs ht
  | cons c rest ih =>
    rw [entered] at hv
    split at hv
    · cases hv
    · rename_i target ht
      rcases List.mem_cons.1 hv with rfl | hv
      · exact closed.next?_mem hs ht
      · exact ih (closed.next?_mem hs ht) hv

theorem mem_candidatesOf {accepting : StateId → List SymbolId} {visits : List Visit}
    {c : Candidate} :
    c ∈ candidatesOf accepting visits ↔
      ∃ v ∈ visits, c.symbol ∈ accepting v.state ∧ c.stop = v.offset := by
  simp only [candidatesOf, Visit.candidates, List.mem_flatMap, List.mem_reverse, List.mem_map]
  constructor
  · rintro ⟨v, hv, x, hx, rfl⟩
    exact ⟨v, hv, hx, rfl⟩
  · rintro ⟨v, hv, hx, ho⟩
    exact ⟨v, hv, c.symbol, hx, by rw [← ho]⟩

/-! ## Offers and replies -/

/-- A match and the action that is to decide on it. -/
structure Offer where
  action : ActionId
  found : Match
deriving DecidableEq, Repr

/-- A candidate as it is offered by a scan that began at `start`. -/
def Candidate.offer (action : SymbolId → ActionId) (start : Nat) (c : Candidate) : Offer :=
  ⟨action c.symbol, ⟨c.symbol, ⟨start, c.stop⟩⟩⟩

@[simp]
theorem Candidate.offer_stop (action : SymbolId → ActionId) (start : Nat) (c : Candidate) :
    (c.offer action start).found.stop = c.stop := rfl

namespace Hook

variable {η : Type}

/-- The replies to offers that are made one after the other, each with the source at the end of
what is offered. -/
def replies (hook : Hook η) : List Offer → List Invocation
  | [] => []
  | o :: rest =>
    let (verdict, hook') := hook.invoke o.action o.found
    ⟨o.action, o.found, o.found.stop, verdict⟩ :: hook'.replies rest

/-- The hook after it has been called like this. -/
def after (hook : Hook η) (calls : List Invocation) : Hook η :=
  calls.foldl (fun h call => (h.invoke call.action call.offered).2) hook

@[simp]
theorem replies_nil (hook : Hook η) : hook.replies [] = [] := rfl

theorem replies_cons (hook : Hook η) (o : Offer) (rest : List Offer) :
    hook.replies (o :: rest) =
      ⟨o.action, o.found, o.found.stop, (hook.invoke o.action o.found).1⟩ ::
        (hook.invoke o.action o.found).2.replies rest := rfl

theorem replies_eq_nil {hook : Hook η} {offers : List Offer} :
    hook.replies offers = [] ↔ offers = [] := by
  cases offers with
  | nil => simp
  | cons o rest => simp [replies_cons]

@[simp]
theorem after_nil (hook : Hook η) : hook.after [] = hook := rfl

@[simp]
theorem after_cons (hook : Hook η) (call : Invocation) (calls : List Invocation) :
    hook.after (call :: calls) = (hook.invoke call.action call.offered).2.after calls := rfl

theorem after_append (hook : Hook η) (first later : List Invocation) :
    hook.after (first ++ later) = (hook.after first).after later :=
  List.foldl_append

theorem react_after (hook : Hook η) (calls : List Invocation) :
    (hook.after calls).react = hook.react := by
  induction calls generalizing hook with
  | nil => rfl
  | cons call rest ih =>
    rw [after_cons, ih]
    rfl

end Hook

/-- The calls up to and including the first that is not rejected. -/
def untilAccepted : List Invocation → List Invocation
  | [] => []
  | call :: rest => if call.verdict.isReject then call :: untilAccepted rest else [call]

/-- Which of the replies a strategy asks for. -/
def Strategy.asked : Strategy → List Invocation → List Invocation
  | .greedy, replies => replies.take 1
  | .backtracking, replies => untilAccepted replies

/-- What a scan makes of its calls: the last one decides. The greedy strategy does not take no for
an answer. -/
def Strategy.outcome (strategy : Strategy) (calls : List Invocation) : Outcome :=
  match calls.getLast? with
  | none => .missed .noMatch
  | some last =>
    match strategy, last.verdict with
    | .backtracking, .reject => .missed .rejected
    | _, _ => .emitted last.offered

/-- Where a scan from `start` leaves the source: behind the match that was offered last. -/
def restOf (start : Nat) (calls : List Invocation) : Nat :=
  match calls.getLast? with
  | none => start
  | some last => last.offered.stop

@[simp]
theorem restOf_nil (start : Nat) : restOf start [] = start := rfl

@[simp]
theorem restOf_cons (start : Nat) (call : Invocation) (calls : List Invocation) :
    restOf start (call :: calls) = restOf call.offered.stop calls := by
  cases calls with
  | nil => rfl
  | cons next rest => rfl

theorem untilAccepted_of_accept {call : Invocation} (h : call.verdict = .accept)
    (rest : List Invocation) : untilAccepted (call :: rest) = [call] := by
  simp [untilAccepted, h, Verdict.isReject]

theorem untilAccepted_of_reject {call : Invocation} (h : call.verdict = .reject)
    (rest : List Invocation) : untilAccepted (call :: rest) = call :: untilAccepted rest := by
  simp [untilAccepted, h, Verdict.isReject]

theorem untilAccepted_eq_nil {calls : List Invocation} : untilAccepted calls = [] ↔ calls = [] := by
  cases calls with
  | nil => simp [untilAccepted]
  | cons call rest => rw [untilAccepted]; split <;> simp

theorem untilAccepted_prefix (calls : List Invocation) : untilAccepted calls <+: calls := by
  induction calls with
  | nil => exact List.prefix_rfl
  | cons call rest ih =>
    rw [untilAccepted]
    split
    · exact List.cons_prefix_cons.2 ⟨rfl, ih⟩
    · exact List.cons_prefix_cons.2 ⟨rfl, List.nil_prefix⟩

/-- A strategy asks for the first replies and makes up none. -/
theorem Strategy.asked_prefix (strategy : Strategy) (replies : List Invocation) :
    strategy.asked replies <+: replies := by
  cases strategy with
  | greedy => exact List.take_prefix 1 replies
  | backtracking => exact untilAccepted_prefix replies

/-- Where the first reply is no rejection, all strategies agree. -/
theorem Strategy.asked_of_accept (strategy : Strategy) {call : Invocation}
    (h : call.verdict = .accept) (rest : List Invocation) :
    strategy.asked (call :: rest) = [call] := by
  cases strategy with
  | greedy => rfl
  | backtracking => exact untilAccepted_of_accept h rest

theorem Strategy.outcome_of_accept (strategy : Strategy) {call : Invocation}
    (h : call.verdict = .accept) : strategy.outcome [call] = .emitted call.offered := by
  cases strategy <;> simp [outcome, h]

@[simp]
theorem Strategy.asked_nil (strategy : Strategy) : strategy.asked [] = [] := by
  cases strategy <;> rfl

@[simp]
theorem Strategy.outcome_nil (strategy : Strategy) : strategy.outcome [] = .missed .noMatch := rfl

/-- With either strategy, nothing matches exactly if there is nothing to ask the hook for. -/
theorem Strategy.outcome_eq_noMatch_iff {strategy : Strategy} {calls : List Invocation} :
    strategy.outcome calls = .missed .noMatch ↔ calls = [] := by
  constructor
  · intro h
    unfold outcome at h
    split at h
    · rename_i hnone
      exact List.getLast?_eq_none_iff.1 hnone
    · split at h <;> cases h
  · rintro rfl
    rfl

theorem Hook.offered_of_mem_replies {η : Type} {hook : Hook η} {offers : List Offer}
    {call : Invocation} (h : call ∈ hook.replies offers) :
    ∃ o ∈ offers, call.action = o.action ∧ call.offered = o.found := by
  induction offers generalizing hook with
  | nil => cases h
  | cons o rest ih =>
    rcases List.mem_cons.1 h with rfl | h
    · exact ⟨o, List.mem_cons_self, rfl, rfl⟩
    · obtain ⟨o', ho', heq⟩ := ih h
      exact ⟨o', List.mem_cons_of_mem _ ho', heq⟩

/-! ## The calls of a scan -/

namespace Matcher

variable {η : Type}

/-- The candidates of a scan of the text from `state`. -/
def candidates (m : Matcher TextSource η) (state : StateId) : List Candidate :=
  candidatesOf m.automaton.accepted
    (entered m.automaton.next? m.source.place.behind state m.cursor)

/-- The offers of a scan of the text from `state`. -/
def offers (m : Matcher TextSource η) (state : StateId) : List Offer :=
  (m.candidates state).map (·.offer m.automaton.handle m.cursor)

/-- The calls that a scan of the text from `state` makes. -/
def tried (m : Matcher TextSource η) (state : StateId) : List Invocation :=
  m.strategy.asked (m.hook.replies (m.offers state))

/-- The matcher behind these calls of a scan: the hook has been called like this, and the source
stands behind the match that was offered last. -/
def afterCalls (m : Matcher TextSource η) (calls : List Invocation) : Matcher TextSource η :=
  { m with source := m.source.seek (restOf m.cursor calls), hook := m.hook.after calls }

end Matcher

end Munch
