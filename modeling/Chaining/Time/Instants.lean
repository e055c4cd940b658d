import Chaining.Time.Batch

/-! # Requested instants and stored ones

Delays are converted to nanoseconds, and added to a reading of the clock, in 64 bits without any
check. A request that does not fit is stored as another instant: often one that has passed, as for the
largest delay there is, so that a timer meant for never is due at once. `instant_sound_iff` gives the
requests that are stored rightly, for the two ways of registering by a delay, for registering by a time
and for `reset`. -/

namespace Chaining.Time.Instants

open Chaining.Base.Ordered Chaining.Outcome Chaining.Time.Defs Chaining.Time.Batch

/-- `std::chrono::seconds` as nanoseconds. -/
def secondsToNanoseconds (seconds : ℤ) : ℤ := wrap64 (seconds * 1000000000)

/-- `runUntil` with a `time_t`. -/
def runUntilTime (s : EventLoop) (timercb : Bool) (expireTime : ℤ) : Except Fault EventLoop :=
  s.runUntil timercb (secondsToNanoseconds expireTime)

/-- **What is owed for a request**: the instant stored is the one requested, or it has not passed at
the reading of the clock either if that has not. -/
def Sound (now requested stored : ℤ) : Prop :=
  stored = requested ∨ (now < requested → now < stored)

/-- A registration that returns has stored a timer for the request. -/
def Stored (now requested : ℤ) (s : EventLoop) (r : Except Fault EventLoop) : Prop :=
  ∃ s' t, r = .ok s' ∧ s'.log = .created t :: s.log ∧ t ∈ s'.timers.timers.toList ∧
    Sound now requested t.expTime

/-- **The condition**: the instant requested fits, or leaves a remainder by `2 ^ 64` that fits and is
later than the reading of the clock. -/
def Fitting (now requested : ℤ) : Prop :=
  requested < 2 ^ 63 ∨ now < requested % 2 ^ 64 ∧ requested % 2 ^ 64 < 2 ^ 63

instance (now requested : ℤ) : Decidable (Fitting now requested) := by
  unfold Fitting; infer_instance

/-- A request, wrapped to 64 bits. -/
theorem sound_wrap64_iff {now requested : ℤ} (h0 : 0 ≤ now) (hnow : now < 2 ^ 63)
    (hr : 0 ≤ requested) : Sound now requested (wrap64 requested) ↔ Fitting now requested := by
  unfold Sound Fitting
  rw [wrap64_def]
  split_ifs <;> omega

/-! ### What the registrations store -/

variable (s : EventLoop)

/-- A timer that goes into the queue. -/
theorem stored_take {now requested : ℤ} (t : Timer) :
    Stored now requested s (.ok (s.take t)) ↔ Sound now requested t.expTime := by
  constructor
  · rintro ⟨s', t', he, hl, -, hs⟩
    cases he
    cases (List.cons.inj hl).1
    exact hs
  · intro hs
    have hmem : t ∈ (s.timers.insert t).timers.toList :=
      (s.timers.timers.perm_insert t).mem_iff.mpr List.mem_cons_self
    exact ⟨s.take t, t, rfl, rfl, hmem, hs⟩

theorem runEvery_eq {ms : ℤ} (hms : 0 < ms) (timercb : Bool) (now : ℤ) :
    s.runEvery timercb ms now =
      .ok (s.take ⟨s.gId, timercb, true, addMilliseconds now ms, ms, false⟩) := by
  simp [EventLoop.runEvery, Timer.repeating, hms]

/-- There is no timer that repeats without a delay. -/
theorem runEvery_zero (timercb : Bool) (now : ℤ) :
    s.runEvery timercb 0 now = .error .assertFailed := rfl

/-- The request that a repeating timer makes of `reset`, at any reading of the clock. -/
theorem sound_reset_iff {now ms : ℤ} (h0 : 0 ≤ now) (hnow : now < 2 ^ 63) (hms : 0 < ms) {t : Timer}
    (hr : t.isRepeat = true) (ht : t.interval = ms) :
    Sound now (now + ms * 1000000) (t.reset now).expTime ↔
      t.canceled = false ∧ Fitting now (now + ms * 1000000) := by
  cases hc : t.canceled with
  | true =>
    -- `reset` gives a cancelled timer the epoch, which is not later than any reading.
    have hreset : (t.reset now).expTime = 0 := by simp [Timer.reset, hc]
    refine iff_of_false (fun hs => ?_) fun h => by cases h.1
    rw [hreset] at hs
    unfold Sound at hs
    omega
  | false =>
    rw [t.reset_of_not_canceled now hr hc, ht, addMilliseconds_eq]
    exact (sound_wrap64_iff h0 hnow (by omega)).trans (by simp)

/-- **Which instants are stored rightly.** At any reading of the clock from the epoch on, `runAfter`,
`runUntil` and `runEvery` store the instant requested, or one that is later than the reading if that
is, if and only if the request is fitting; and so does the `reset` of a repeating timer, if and only
if the request is fitting and the timer is not cancelled. -/
theorem instant_sound_iff (timercb : Bool) {now ms seconds : ℤ} (h0 : 0 ≤ now) (hnow : now < 2 ^ 63)
    (hms : 0 ≤ ms) (hsec : 0 ≤ seconds) :
    (Stored now (now + ms * 1000000) s (s.runAfter timercb ms now) ↔
        Fitting now (now + ms * 1000000)) ∧
      (Stored now (seconds * 1000000000) s (runUntilTime s timercb seconds) ↔
        Fitting now (seconds * 1000000000)) ∧
      (ms = 0 → s.runEvery timercb ms now = .error .assertFailed) ∧
      (0 < ms → (Stored now (now + ms * 1000000) s (s.runEvery timercb ms now) ↔
        Fitting now (now + ms * 1000000))) ∧
      ∀ t : Timer, t.isRepeat = true → t.interval = ms → 0 < ms →
        (Sound now (now + ms * 1000000) (t.reset now).expTime ↔
          t.canceled = false ∧ Fitting now (now + ms * 1000000)) := by
  have hdelay : Sound now (now + ms * 1000000) (addMilliseconds now ms) ↔
      Fitting now (now + ms * 1000000) := by
    rw [addMilliseconds_eq]
    exact sound_wrap64_iff h0 hnow (by omega)
  refine ⟨(stored_take s _).trans hdelay, ?_, ?_, fun hpos => ?_, fun t hr ht hpos => ?_⟩
  · exact (stored_take s _).trans (sound_wrap64_iff h0 hnow (by omega))
  · rintro rfl
    exact runEvery_zero s timercb now
  · rw [runEvery_eq s hpos]
    exact (stored_take s _).trans hdelay
  · exact sound_reset_iff h0 hnow hpos hr ht

/-- Ordinary requests, in 2023. -/
theorem instant_sound_iff_ordinary :
    (Stored 1700000000000000000 (1700000000000000000 + 5000 * 1000000) (init 0)
        ((init 0).runAfter true 5000 1700000000000000000) ↔
      Fitting 1700000000000000000 (1700000000000000000 + 5000 * 1000000)) ∧
      Fitting 1700000000000000000 (1700000000000000000 + 5000 * 1000000) := by
  have h := @instant_sound_iff (init 0) true 1700000000000000000 5000 1700000005 (by norm_num)
    (by norm_num) (by norm_num) (by norm_num)
  exact ⟨h.1, by decide⟩

/-- **The largest delay is over at once**: the timer is stored for the millisecond before the reading
of the clock, and is due in a batch of the same reading. -/
theorem largest_delay_expired :
    ∃ s' t, (init 0).runAfter true (2 ^ 63 - 1) 1700000000000000000 = .ok s' ∧
      t.expTime = 1700000000000000000 - 1000000 ∧
      (s'.timers.getExpiredTimes 1700000000000000000).1 = [t] ∧
      ¬ Stored 1700000000000000000 (1700000000000000000 + (2 ^ 63 - 1) * 1000000) (init 0)
        ((init 0).runAfter true (2 ^ 63 - 1) 1700000000000000000) := by
  refine ⟨_, .oneShot 0 true (addMilliseconds 1700000000000000000 (2 ^ 63 - 1)), rfl, by decide,
    by decide, ?_⟩
  refine mt (stored_take (init 0) _).mp ?_
  unfold Sound
  decide

end Chaining.Time.Instants
