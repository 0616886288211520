import Munch.Logged

/-!
# What a computation returns

`Logged.Returns x calls a` says that `x` runs into no fault, makes exactly these hook calls and ends
with `a`. The rules below follow the way in which computations are put together, so that a proof
about a function is a walk along its steps.
-/

namespace Munch.Logged

variable {α β : Type}

/-- The computation ends with `a` after these hook calls. -/
structure Returns (x : Logged α) (calls : List Invocation) (a : α) : Prop where
  calls_eq : x.calls = calls
  result_eq : x.result = .ok a

theorem Returns.of_eq {x : Logged α} {calls calls' : List Invocation} {a a' : α}
    (h : x.Returns calls a) (hc : calls = calls') (ha : a = a') : x.Returns calls' a' := by
  subst hc ha
  exact h

theorem returns_pure (a : α) : (pure a : Logged α).Returns [] a := ⟨rfl, rfl⟩

/-- The calls of a sequence are those of its steps. -/
theorem Returns.bind {x : Logged α} {f : α → Logged β} {first later : List Invocation} {a : α}
    {b : β} (hx : x.Returns first a) (hf : (f a).Returns later b) :
    (x >>= f).Returns (first ++ later) b := by
  rw [bind_ok hx.result_eq]
  refine ⟨?_, hf.result_eq⟩
  rw [← hx.calls_eq, ← hf.calls_eq]
  exact callsOf_append _ _

/-- A report that is no hook call leaves no trace. -/
theorem Returns.emit_bind {e : Event} (he : e.call? = none) {f : Unit → Logged β}
    {calls : List Invocation} {b : β} (hf : (f ()).Returns calls b) :
    (emit e >>= f).Returns calls b := by
  have h : (emit e).Returns [] () := by
    refine ⟨?_, rfl⟩
    show [e].filterMap Event.call? = []
    simp [he]
  exact h.bind hf

/-- The report of a hook call is the call. -/
theorem Returns.invoked_bind {call : Invocation} {f : Unit → Logged β} {calls : List Invocation}
    {b : β} (hf : (f ()).Returns calls b) :
    (emit (.invoked call) >>= f).Returns (call :: calls) b := by
  have h : (emit (.invoked call)).Returns [call] () := ⟨rfl, rfl⟩
  exact h.bind hf

/-- A step that reports nothing and does not fault is a value. -/
theorem Returns.lift_bind {x : Except Fault α} {a : α} (hx : x = .ok a) {f : α → Logged β}
    {calls : List Invocation} {b : β} (hf : (f a).Returns calls b) :
    ((liftM x : Logged α) >>= f).Returns calls b := by
  rw [hx, liftM_eq, ofExcept_ok_bind]
  exact hf

end Munch.Logged
