import Munch.Event
import Munch.Fault

/-!
# Computations that report events

`Logged α` is the outcome of a computation that reports events and may run into a fault. The
events reported before a fault are kept.

* `emit` reports one event, `Logged.ofExcept` embeds a computation that reports none.
* The monad laws hold (`LawfulMonad`), so steps can be regrouped freely in proofs.
-/

namespace Munch

/-- A value or a fault, together with the events reported on the way, in order. -/
structure Logged (α : Type) where
  events : List Event
  result : Except Fault α

namespace Logged

variable {α β : Type}

/-- A value, with nothing to report. -/
protected def pure (a : α) : Logged α := ⟨[], .ok a⟩

/-- Continues with the value of `x`; a fault of `x` is final. -/
protected def bind (x : Logged α) (f : α → Logged β) : Logged β :=
  match x.result with
  | .ok a => let y := f a; ⟨x.events ++ y.events, y.result⟩
  | .error fault => ⟨x.events, .error fault⟩

instance : Monad Logged where
  pure := Logged.pure
  bind := Logged.bind

/-- A computation that reports nothing. -/
def ofExcept (x : Except Fault α) : Logged α := ⟨[], x⟩

instance : MonadLift (Except Fault) Logged := ⟨ofExcept⟩

/-- Reports one event. -/
def emit (e : Event) : Logged Unit := ⟨[e], .ok ()⟩

/-- The hook calls made by the computation, in order. -/
def calls (x : Logged α) : List Invocation := callsOf x.events

theorem pure_def (a : α) : (pure a : Logged α) = ⟨[], .ok a⟩ := rfl

theorem bind_ok {x : Logged α} {a : α} (h : x.result = .ok a) (f : α → Logged β) :
    x >>= f = ⟨x.events ++ (f a).events, (f a).result⟩ := by
  change Logged.bind x f = _
  simp [Logged.bind, h]

theorem bind_error {x : Logged α} {fault : Fault} (h : x.result = .error fault)
    (f : α → Logged β) : x >>= f = ⟨x.events, .error fault⟩ := by
  change Logged.bind x f = _
  simp [Logged.bind, h]

/-- A sequence succeeds exactly if both steps do. -/
theorem bind_result_eq_ok {x : Logged α} {f : α → Logged β} {b : β} :
    (x >>= f).result = .ok b ↔ ∃ a, x.result = .ok a ∧ (f a).result = .ok b := by
  rcases h : x.result with fault | a
  · simp [bind_error h]
  · simp [bind_ok h]

/-- A step that reports nothing may be used among steps that do. -/
@[simp]
theorem liftM_eq (x : Except Fault α) : (liftM x : Logged α) = ofExcept x := rfl

@[simp]
theorem emit_bind (e : Event) (f : Unit → Logged β) :
    emit e >>= f = ⟨e :: (f ()).events, (f ()).result⟩ := rfl

@[simp]
theorem ofExcept_ok_bind (a : α) (f : α → Logged β) : ofExcept (.ok a) >>= f = f a := rfl

@[simp]
theorem ofExcept_error_bind (fault : Fault) (f : α → Logged β) :
    (ofExcept (.error fault) : Logged α) >>= f = ⟨[], .error fault⟩ := rfl

theorem map_id' (x : Logged α) : id <$> x = x := by
  rcases x with ⟨events, fault | a⟩ <;> simp [Functor.map, Logged.bind, Logged.pure]

theorem pure_bind' (a : α) (f : α → Logged β) : pure a >>= f = f a := by
  simp [bind, pure, Logged.bind, Logged.pure]

theorem bind_assoc' {γ : Type} (x : Logged α) (f : α → Logged β) (g : β → Logged γ) :
    x >>= f >>= g = x >>= fun a => f a >>= g := by
  rcases x with ⟨events, fault | a⟩
  · rfl
  · rcases h : (f a).result with fault | b <;> simp [bind, Logged.bind, h]

instance : LawfulMonad Logged := LawfulMonad.mk' Logged map_id' pure_bind' bind_assoc'

@[simp]
theorem result_map (f : α → β) (x : Logged α) : (f <$> x).result = f <$> x.result := by
  rcases x with ⟨events, fault | a⟩ <;> rfl

@[simp]
theorem calls_map (f : α → β) (x : Logged α) : (f <$> x).calls = x.calls := by
  rcases x with ⟨events, fault | a⟩ <;> simp [calls, Functor.map, Logged.bind, Logged.pure]

end Logged

end Munch
