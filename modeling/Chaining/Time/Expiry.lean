import Chaining.Time.Batch

/-! # Two notions of expiry

The queue moves a timer out when its expiration is at or before the reading of the clock.
`Timer::isExpired` compares the other way round: it is true from the first instant up to the
expiration, and false once that has passed. `expiry_agrees_iff` says that the two agree on a timer at
its very instant only. -/

namespace Chaining.Time.Expiry

open Chaining.Base.Ordered Chaining.Time.Defs Chaining.Time.Batch

variable (q : TimerQueue) (curr : ℤ)

/-- **After the call** no timer left is expired at the reading, and every one handed out is. -/
structure Separates : Prop where
  left : ∀ t ∈ (q.getExpiredTimes curr).2.timers.toList, t.isExpired curr = false
  out : ∀ t ∈ (q.getExpiredTimes curr).1, t.isExpired curr = true

theorem isExpired_iff {curr : ℤ} (t : Timer) : t.isExpired curr = true ↔ curr ≤ t.expTime :=
  decide_eq_true_iff

variable {q curr} in
theorem mem_getExpiredTimes {t : Timer} (h : t ∈ q.timers.toList) :
    t ∈ (q.getExpiredTimes curr).1 ↔ t.expTime ≤ curr := by
  refine ⟨TimerQueue.expTime_le_of_mem, fun hle => ?_⟩
  rw [← q.getExpiredTimes_append curr] at h
  rcases List.mem_append.mp h with h | h
  · exact h
  · exact absurd hle (not_le.mpr (TimerQueue.lt_expTime_of_mem h))

theorem separates_iff : Separates q curr ↔ ∀ t ∈ q.timers.toList, t.expTime = curr := by
  constructor
  · intro h t ht
    rw [← q.getExpiredTimes_append curr] at ht
    rcases List.mem_append.mp ht with hout | hleft
    · exact le_antisymm (TimerQueue.expTime_le_of_mem hout) ((isExpired_iff t).mp (h.out t hout))
    · have hlt := TimerQueue.lt_expTime_of_mem hleft
      have hexpired := (isExpired_iff t).mpr hlt.le
      rw [h.left t hleft] at hexpired
      cases hexpired
  · intro h
    have hmem : ∀ t, t ∈ (q.getExpiredTimes curr).1 ++
        (q.getExpiredTimes curr).2.timers.toList → t.expTime = curr := fun t ht =>
      h t (q.getExpiredTimes_append curr ▸ ht)
    constructor
    · intro t ht
      have heq := hmem t (List.mem_append_right _ ht)
      have hlt := TimerQueue.lt_expTime_of_mem ht
      omega
    · intro t ht
      exact (isExpired_iff t).mpr (hmem t (List.mem_append_left _ ht)).ge

/-- **When the two notions agree**: on a timer of the queue exactly if its expiration is the reading
of the clock, and so on the whole queue exactly if all its timers expire at that instant. -/
theorem expiry_agrees_iff :
    (∀ t ∈ q.timers.toList,
      (t ∈ (q.getExpiredTimes curr).1 ↔ t.isExpired curr = true) ↔ t.expTime = curr) ∧
      ((∀ t ∈ q.timers.toList,
        (t ∈ (q.getExpiredTimes curr).1 ↔ t.isExpired curr = true)) ↔
          ∀ t ∈ q.timers.toList, t.expTime = curr) ∧
      (Separates q curr ↔ ∀ t ∈ q.timers.toList, t.expTime = curr) := by
  have hone : ∀ t ∈ q.timers.toList,
      ((t ∈ (q.getExpiredTimes curr).1 ↔ t.isExpired curr = true) ↔ t.expTime = curr) := by
    intro t ht
    rw [mem_getExpiredTimes ht, isExpired_iff]
    omega
  exact ⟨hone, forall₂_congr hone, separates_iff q curr⟩

/-- A queue with a timer for the instant 9 and one for the instant 11. -/
def two : TimerQueue :=
  ⟨(OrderedList.empty.insert (.oneShot 0 true 9)).insert (.oneShot 1 true 11)⟩

/-- **The overdue timer is not expired, and the next one is**: at the instant 10 the first is moved
out and the second is left. -/
theorem overdue_not_expired :
    (two.getExpiredTimes 10).1 = [.oneShot 0 true 9] ∧
      (two.getExpiredTimes 10).2.timers.toList = [.oneShot 1 true 11] ∧
      (Timer.oneShot 0 true 9).isExpired 10 = false ∧
      (Timer.oneShot 1 true 11).isExpired 10 = true ∧
      ¬ (∀ t ∈ two.timers.toList,
        (t ∈ (two.getExpiredTimes 10).1 ↔ t.isExpired 10 = true)) ∧ ¬ Separates two 10 := by
  have hout : (two.getExpiredTimes 10).1 = [.oneShot 0 true 9] := by decide
  have hmem : Timer.oneShot 0 true 9 ∈ (two.getExpiredTimes 10).1 := hout ▸ List.mem_cons_self
  refine ⟨hout, by decide, by decide, by decide, fun h => ?_, fun h => ?_⟩
  · exact absurd ((h (.oneShot 0 true 9) (by decide)).mp hmem) (by decide)
  · exact absurd (h.out _ hmem) (by decide)

end Chaining.Time.Expiry
