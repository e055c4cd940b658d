import Chaining.Outcome
import Mathlib.Algebra.Order.Ring.Int
import Mathlib.Order.Defs.Unbundled
import Mathlib.Tactic.NormNum

/-! # Instants and timers

An instant is a `system_clock::time_point`: a signed 64-bit number of nanoseconds since the epoch.
Sums, differences and conversions of the source are computed in 64 bits, which `wrap64` spells out.

A timer is due at its expiration, an instant; a repeating one is given a new expiration after each
run (`reset`). Timers are compared by expiration and then by id. -/

namespace Chaining.Time.Defs

open Chaining.Outcome

/-- A number in 64-bit two's complement. -/
def wrap64 (x : ℤ) : ℤ := x.bmod (2 ^ 64)

/-- `std::chrono::milliseconds` as nanoseconds. -/
def nanoseconds (milliseconds : ℤ) : ℤ := wrap64 (milliseconds * 1000000)

/-- `time_point + milliseconds`. -/
def addMilliseconds (t milliseconds : ℤ) : ℤ :=
  wrap64 (t + nanoseconds milliseconds)

/-- The number is one of 64 bits. -/
def Fits64 (x : ℤ) : Prop := -2 ^ 63 ≤ x ∧ x < 2 ^ 63

/-- The remainder, with its upper half taken for negative numbers. -/
theorem wrap64_def (x : ℤ) :
    wrap64 x = if x % 2 ^ 64 < 2 ^ 63 then x % 2 ^ 64 else x % 2 ^ 64 - 2 ^ 64 :=
  Int.bmod_def x (2 ^ 64)

theorem wrap64_eq {x : ℤ} (h : Fits64 x) : wrap64 x = x := by
  obtain ⟨h1, h2⟩ := h
  exact Int.bmod_eq_of_le (by norm_num at h1 ⊢; omega) (by norm_num at h2 ⊢; omega)

/-- The sum is taken in 64 bits once. -/
theorem addMilliseconds_eq (t ms : ℤ) :
    addMilliseconds t ms = wrap64 (t + ms * 1000000) := by
  unfold addMilliseconds nanoseconds wrap64
  rw [Int.add_bmod_bmod]

/-- A timer; `timercb` says whether it holds a callback to invoke. Ids are numbers of 64 bits in the source,
where `TimerId` counts them; that counter is taken not to wrap. -/
structure Timer where
  id : ℕ
  timercb : Bool
  isRepeat : Bool
  expTime : ℤ
  interval : ℤ
  canceled : Bool
  deriving DecidableEq

namespace Timer

/-- `Timer(timercb, expTime)`, with the id that `TimerId` has taken. -/
def oneShot (id : ℕ) (timercb : Bool) (expTime : ℤ) : Timer where
  id := id
  timercb := timercb
  isRepeat := false
  expTime := expTime
  interval := 0
  canceled := false

/-- `Timer(timercb, expTime, interval)`. -/
def repeating (id : ℕ) (timercb : Bool) (expTime : ℤ) (interval : ℤ) : Except Fault Timer :=
  if interval > 0 then
    .ok {
      id := id
      timercb := timercb
      isRepeat := true
      expTime := expTime
      interval := interval
      canceled := false }
  else .error .assertFailed

variable (t : Timer)

def expiration : ℤ := t.expTime

/-- `isExpired`, at a reading of the clock. -/
def isExpired (now : ℤ) : Bool := t.expTime ≥ now

/-- `reset`, at a reading of the clock. A repeating timer is re-armed, for the reading and its interval; but
one that was cancelled, like a one-shot timer, is given the default instant. -/
def reset (now : ℤ) : Timer :=
  if t.isRepeat ∧ ¬ t.canceled then { t with expTime := addMilliseconds now t.interval }
  else { t with expTime := 0 }

def cancel : Timer := { t with canceled := true }

/-- `operator<`. -/
def lt (left right : Timer) : Prop :=
  left.expTime < right.expTime ∨ (left.expTime = right.expTime ∧ left.id < right.id)

instance : DecidableRel lt := fun left right => by unfold lt; infer_instance

instance : IsTrans Timer lt where
  trans a b c := by unfold lt; omega

instance : Std.Irrefl lt where
  irrefl a := by unfold lt; omega

theorem lt_of_not_lt {a b : Timer} (h : ¬ lt b a) (hid : a.id ≠ b.id) : lt a b := by
  unfold lt at *; omega

theorem expTime_le_of_not_lt {a b : Timer} (h : ¬ lt b a) : a.expTime ≤ b.expTime := by
  unfold lt at h; omega

theorem reset_of_not_canceled (now : ℤ) (hr : t.isRepeat = true) (hc : t.canceled = false) :
    t.reset now = { t with expTime := addMilliseconds now t.interval } :=
  if_pos ⟨hr, by simp [hc]⟩

/-- All that `reset` changes is the expiration. -/
theorem reset_frame (now : ℤ) :
    (t.reset now).id = t.id ∧ (t.reset now).timercb = t.timercb ∧
      (t.reset now).isRepeat = t.isRepeat ∧ (t.reset now).interval = t.interval ∧
      (t.reset now).canceled = t.canceled := by
  unfold reset
  split_ifs <;> exact ⟨rfl, rfl, rfl, rfl, rfl⟩

end Timer

end Chaining.Time.Defs
