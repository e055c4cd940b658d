import Chaining.Time.Batch

/-! # How long the loop waits

Before it waits the loop asks the queue for its earliest expiration, and the poller turns that into
the timeout of `epoll_wait`: the difference to the clock in whole milliseconds, or `-1`, which blocks,
when the instant is the default one that stands for an empty queue. Neither the sign of the
difference nor its size is looked at, and the timeout is a 32-bit number. `timeout_neverPast_iff` says
for which queues and readings the wait still ends by the earliest expiration. -/

namespace Chaining.Time.Timeout

open Chaining.Base.Ordered Chaining.Outcome Chaining.Time.Defs Chaining.Time.Batch

/-- `GetMillsecondsFromNow`: the difference in 64 bits, truncated to whole milliseconds. -/
def getMillsecondsFromNow (exptime now : ℤ) : ℤ := (wrap64 (exptime - now)).tdiv 1000000

/-- A number passed as an `int`. -/
def toInt (x : ℤ) : ℤ := x.bmod (2 ^ 32)

/-- The timeout that `Epoller::wait` passes to `epoll_wait`. -/
def wait (expTime now : ℤ) : ℤ :=
  toInt (if expTime ≠ 0 then getMillsecondsFromNow expTime now else -1)

/-- The timeout of the loop's next wait. -/
def timeout (q : TimerQueue) (now : ℤ) : ℤ := wait q.getNextExpiredTime now

/-- **The loop does not sleep past a timer**: it blocks only without timers, and waits no longer than
up to any expiration, not at all if that has passed. -/
def NeverPast (q : TimerQueue) (now : ℤ) : Prop :=
  (timeout q now < 0 → q.timers.toList = []) ∧
    ∀ t ∈ q.timers.toList, 0 ≤ timeout q now ∧ timeout q now * 1000000 ≤ max 0 (t.expTime - now)

/-- The expiration is not the instant that stands for an empty queue, and the whole milliseconds to
it leave a remainder by `2 ^ 32` in the lower half; if it has passed, they leave none. -/
def Waitable (expTime now : ℤ) : Prop :=
  expTime ≠ 0 ∧
    (now ≤ expTime ∧ (wrap64 (expTime - now)).tdiv 1000000 % 2 ^ 32 < 2 ^ 31 ∨
      expTime < now ∧ (wrap64 (expTime - now)).tdiv 1000000 % 2 ^ 32 = 0)

instance (expTime now : ℤ) : Decidable (Waitable expTime now) := by
  unfold Waitable; infer_instance

theorem toInt_eq (x : ℤ) : toInt x = if x % 2 ^ 32 < 2 ^ 31 then x % 2 ^ 32 else x % 2 ^ 32 - 2 ^ 32 :=
  Int.bmod_def x (2 ^ 32)

theorem wrap64_le {x : ℤ} (h : 0 ≤ x) : wrap64 x ≤ x := by
  rw [wrap64_def]
  split_ifs <;> omega

/-- A difference too large for 64 bits comes out negative. -/
theorem wrap64_neg {x : ℤ} (h : 0 ≤ x) (hw : wrap64 x < 0) : 2 ^ 63 ≤ x := by
  by_contra hlt
  rw [wrap64_eq ⟨by omega, by omega⟩] at hw
  omega

/-- Up to an instant that has not passed, a timeout that is not negative is not too long. -/
theorem toInt_getMillseconds_le {e now : ℤ} (h : now ≤ e)
    (hT : getMillsecondsFromNow e now % 2 ^ 32 < 2 ^ 31) :
    toInt (getMillsecondsFromNow e now) * 1000000 ≤ e - now := by
  rw [toInt_eq, if_pos hT]
  by_cases hw : wrap64 (e - now) < 0
  · have hbig := wrap64_neg (by omega) hw
    omega
  · have hle := wrap64_le (show 0 ≤ e - now by omega)
    have htdiv : getMillsecondsFromNow e now = wrap64 (e - now) / 1000000 :=
      Int.tdiv_eq_ediv_of_nonneg (by omega)
    omega

/-- **One expiration**: the wait ends by it exactly when it is `Waitable`. -/
theorem wait_le_iff (e now : ℤ) :
    (0 ≤ wait e now ∧ wait e now * 1000000 ≤ max 0 (e - now)) ↔ Waitable e now := by
  show _ ↔ e ≠ 0 ∧ (now ≤ e ∧ getMillsecondsFromNow e now % 2 ^ 32 < 2 ^ 31 ∨
    e < now ∧ getMillsecondsFromNow e now % 2 ^ 32 = 0)
  unfold wait
  by_cases h0 : e = 0
  · rw [if_neg (not_not.mpr h0)]
    have hm : ¬ 0 ≤ toInt (-1) := by decide
    exact iff_of_false (fun h => hm h.1) fun h => h.1 h0
  rw [if_pos h0]
  have hT := toInt_eq (getMillsecondsFromNow e now)
  by_cases hle : now ≤ e
  · rw [max_eq_right (by omega)]
    constructor
    · rintro ⟨hnn, -⟩
      refine ⟨h0, Or.inl ⟨hle, ?_⟩⟩
      split_ifs at hT <;> omega
    · rintro ⟨-, ⟨-, hlt⟩ | ⟨hgt, -⟩⟩
      · refine ⟨?_, toInt_getMillseconds_le hle hlt⟩
        rw [if_pos hlt] at hT
        omega
      · omega
  · rw [max_eq_left (by omega)]
    constructor
    · rintro ⟨hnn, hle0⟩
      refine ⟨h0, Or.inr ⟨by omega, ?_⟩⟩
      split_ifs at hT <;> omega
    · rintro ⟨-, ⟨hge, -⟩ | ⟨-, hz⟩⟩
      · omega
      · rw [hz, if_pos (by norm_num)] at hT
        rw [hT]
        exact ⟨le_rfl, le_rfl⟩

/-- The queue's first timer is the earliest. -/
theorem expTime_head_le {q : TimerQueue} {t : Timer} {rest : List Timer}
    (hq : q.timers.toList = t :: rest) {u : Timer} (hu : u ∈ q.timers.toList) :
    t.expTime ≤ u.expTime := by
  have hord := q.timers.ordered
  rw [hq] at hord hu
  rcases List.mem_cons.mp hu with rfl | hu
  · exact le_rfl
  · exact Timer.expTime_le_of_not_lt ((List.pairwise_cons.mp hord).1 u hu)

/-- **The exact condition.** The loop does not sleep past a timer if and only if the queue is empty or
its first timer's expiration is `Waitable`. -/
theorem timeout_neverPast_iff (q : TimerQueue) (now : ℤ) :
    NeverPast q now ↔ ∀ t ∈ q.timers.toList.head?, Waitable t.expTime now := by
  unfold NeverPast timeout TimerQueue.getNextExpiredTime
  match hq : q.timers.toList with
  | [] => simp
  | t :: rest =>
    have hmin : ∀ u ∈ t :: rest, t.expTime ≤ u.expTime := fun u hu =>
      expTime_head_le hq (hq ▸ hu)
    dsimp only [Timer.expiration]
    rw [List.head?_cons]
    constructor
    · rintro ⟨-, hall⟩ u hu
      cases hu
      exact (wait_le_iff _ _).mp (hall t List.mem_cons_self)
    · intro h
      obtain ⟨hnn, hle⟩ := (wait_le_iff _ _).mpr (h t rfl)
      refine ⟨fun hneg => by omega, fun u hu => ⟨hnn, ?_⟩⟩
      have hu := hmin u hu
      omega

/-- A timer that became overdue before the wait, one at the epoch, and one 25 days ahead: the loop
blocks in spite of each. -/
theorem timeout_blocks :
    (∃ s, (init 0).runAfter true 10 1700000000000000000 = .ok s ∧
      timeout s.timers 1700000000015000000 = -5 ∧ ¬ NeverPast s.timers 1700000000015000000) ∧
    (∃ s, (init 0).runUntil true 0 = .ok s ∧
      timeout s.timers 1700000000000000000 = -1 ∧ ¬ NeverPast s.timers 1700000000000000000) ∧
    ∃ s, (init 0).runAfter true 2160000000 1700000000000000000 = .ok s ∧
      timeout s.timers 1700000000000000000 = -2134967296 ∧
        ¬ NeverPast s.timers 1700000000000000000 := by
  have hblocks : ∀ q now, timeout q now < 0 → q.timers.toList ≠ [] → ¬ NeverPast q now :=
    fun q now hneg hne h => hne (h.1 hneg)
  refine ⟨⟨_, rfl, by decide, hblocks _ _ (by decide) ?_⟩,
    ⟨_, rfl, by decide, hblocks _ _ (by decide) ?_⟩, ⟨_, rfl, by decide, hblocks _ _ (by decide) ?_⟩⟩ <;>
  exact List.cons_ne_nil _ _

end Chaining.Time.Timeout
