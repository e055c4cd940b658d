import Mathlib.Tactic.Common

/-! # Outcomes of a call

The ways a function of the library can go wrong before it returns: an `assert` that does not hold,
or, where the source's behaviour is undefined, a store outside the container it is meant for and a
method of an object that has been destroyed. Every fallible function of the model answers in
`Except Fault`. -/

namespace Chaining.Outcome

/-- How a call goes wrong. -/
inductive Fault where
  | assertFailed
  | outOfBounds
  | destroyed
  deriving DecidableEq, Repr

universe u

variable {ε : Type*} {α β : Type u}

@[simp] theorem ok_bind (a : α) (f : α → Except ε β) : (Except.ok a >>= f) = f a := rfl

@[simp] theorem error_bind (e : ε) (f : α → Except ε β) : (Except.error e >>= f) = .error e := rfl

@[simp] theorem pure_eq_ok (a : α) : (pure a : Except ε α) = .ok a := rfl

/-- A sequence of two calls succeeds when both do. -/
theorem bind_eq_ok {x : Except ε α} {f : α → Except ε β} {b : β} :
    (x >>= f) = .ok b ↔ ∃ a, x = .ok a ∧ f a = .ok b := by
  cases x with
  | error e => simp
  | ok a => simp

end Chaining.Outcome
