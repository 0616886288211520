import Munch.Proofs.Scan.Resolution
import Munch.Proofs.Table.Closed

/-!
# How far a scan looks ahead

A scan reads up to the first character that has no transition. That character is read, too, but
nothing behind it, and the end of the text is out of reach.

* `Automaton.arrival?` — the state in which a run over a whole text arrives; there is none if the
  run gets stuck on a character of the text.
* `entered_append_of_stuck` — a run that gets stuck enters the same states whatever is appended to
  the text.
* `Matcher.tried_of_stuck` — so a scan that gets stuck in a leading part of the unread text makes
  the calls of that part.
* `Table.Validated.scan_ignores_continuation` — two scans over a validated table that get stuck in
  a common beginning of their texts cannot be told apart.
-/

namespace Munch

/-- The state in which the run from `state` over all of the text arrives; none if some character of
the text has no transition. -/
def Automaton.arrival? (a : Automaton) (state : StateId) (text : List Char) : Option StateId :=
  text.foldlM (fun q c => a.next? q (some c)) state

theorem Automaton.arrival?_cons (a : Automaton) (state : StateId) (c : Char) (rest : List Char) :
    a.arrival? state (c :: rest) =
      (a.next? state (some c)).bind fun target => a.arrival? target rest :=
  List.foldlM_cons

/-- **A run that gets stuck does not depend on what follows.** -/
theorem entered_append_of_stuck {a : Automaton} {state : StateId} {text : List Char}
    (stuck : a.arrival? state text = none) (more : List Char) (offset : Nat) :
    entered a.next? (text ++ more) state offset = entered a.next? text state offset := by
  induction text generalizing state offset with
  | nil => cases stuck
  | cons c rest ih =>
    rw [Automaton.arrival?_cons] at stuck
    rw [List.cons_append, entered, entered]
    cases hnext : a.next? state (some c) with
    | none => rfl
    | some target =>
      rw [hnext] at stuck
      simp only [ih stuck]

variable {η : Type}

/-- A scan that gets stuck in a leading part of the unread text makes the calls of that part. -/
theorem Matcher.tried_of_stuck (m : Matcher TextSource η) {state : StateId} {text more : List Char}
    (hbehind : m.source.place.behind = text ++ more)
    (stuck : m.automaton.arrival? state text = none) :
    m.tried state = m.strategy.asked (m.hook.replies
      ((candidatesOf m.automaton.accepted (entered m.automaton.next? text state m.cursor)).map
        (·.offer m.automaton.handle m.cursor))) := by
  unfold tried offers candidates
  rw [hbehind, entered_append_of_stuck stuck]

/-- **A scan looks ahead no further than to the first character without a transition.** Over a
validated table, whatever the strategy and the hook: if the run from `state` gets stuck on some
character of `w`, then the scans of `w ++ x` and of `w ++ y` from their start both return. The
outcome, the cursor and the hook in the end are the same, and so are the hook calls. -/
theorem Table.Validated.scan_ignores_continuation {t : Table} (valid : t.Validated)
    (strategy : Strategy) (hook : Hook η) {state : StateId} (hs : state.index < t.rows.size)
    {w : String} (stuck : t.automaton.arrival? state w.toList = none) (x y : String) :
    let first : Matcher TextSource η :=
      { automaton := t.automaton, source := .ofString (w ++ x), hook, strategy }
    let second : Matcher TextSource η :=
      { automaton := t.automaton, source := .ofString (w ++ y), hook, strategy }
    ∃ outcome first' second',
      (first.scan state).result = .ok (outcome, first') ∧
      (second.scan state).result = .ok (outcome, second') ∧
      first'.cursor = second'.cursor ∧ first'.hook = second'.hook ∧
      (first.scan state).calls = (second.scan state).calls := by
  intro first second
  have hfirst : first.source.place.behind = w.toList ++ x.toList := String.toList_append
  have hsecond : second.source.place.behind = w.toList ++ y.toList := String.toList_append
  have hsame : first.tried state = second.tried state :=
    (first.tried_of_stuck hfirst stuck).trans (second.tried_of_stuck hsecond stuck).symm
  obtain ⟨hcalls, hresult⟩ := Matcher.scan_returns (m := first) valid.closed hs rfl
  obtain ⟨hcalls', hresult'⟩ := Matcher.scan_returns (m := second) valid.closed hs rfl
  have hcursor := first.cursor_afterCalls_tried state
  have hcursor' := second.cursor_afterCalls_tried state
  rw [hsame] at hcalls hresult hcursor
  exact ⟨_, _, _, hresult, hresult', hcursor.trans hcursor'.symm, rfl, hcalls.trans hcalls'.symm⟩

/-- A word of two letters, which is rejected, with a blank behind it. Neither more letters nor the
end of the text behind the blank make a difference. -/
theorem scan_ignores_continuation_wordTable :
    let picky : Hook Nat := ⟨0, fun n _ _ => (.ofReject (n < 1), n + 1)⟩
    let first : Matcher TextSource Nat :=
      { automaton := wordTable.automaton, source := .ofString ("ab " ++ "cé"), hook := picky,
        strategy := .backtracking }
    let second : Matcher TextSource Nat :=
      { automaton := wordTable.automaton, source := .ofString ("ab " ++ ""), hook := picky,
        strategy := .backtracking }
    wordTable.Validated ∧ wordTable.automaton.arrival? ⟨0⟩ "ab ".toList = none ∧
      ∃ first' second',
        (first.scan ⟨0⟩).result = .ok (.emitted ⟨⟨0⟩, ⟨0, 1⟩⟩, first') ∧
        (second.scan ⟨0⟩).result = .ok (.emitted ⟨⟨0⟩, ⟨0, 1⟩⟩, second') ∧
        first'.cursor = second'.cursor ∧ first'.hook = second'.hook ∧
        (first.scan ⟨0⟩).calls = (second.scan ⟨0⟩).calls := by
  intro picky first second
  have hs : (⟨0⟩ : StateId).index < wordTable.rows.size := by decide
  have stuck : wordTable.automaton.arrival? ⟨0⟩ "ab ".toList = none := by decide +kernel
  have hrun : (first.scan ⟨0⟩).result.toOption.map (·.1) = some (.emitted ⟨⟨0⟩, ⟨0, 1⟩⟩) := by
    decide +kernel
  obtain ⟨outcome, first', second', hresult, hresult', hrest⟩ :=
    wordTable_validated.scan_ignores_continuation .backtracking picky hs stuck "cé" ""
  rw [hresult] at hrun
  obtain rfl : outcome = .emitted ⟨⟨0⟩, ⟨0, 1⟩⟩ := Option.some.inj hrun
  exact ⟨wordTable_validated, stuck, first', second', hresult, hresult', hrest⟩

end Munch
