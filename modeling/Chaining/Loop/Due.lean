import Chaining.Loop.Requests
import Chaining.Loop.Rounds
import Chaining.Time.Timeout

/-! # Every timer is run in the end

A timer that is in the queue stays there until it is run (`waits_or_ran`), and a batch runs all timers
that are due at its reading of the clock. So it is enough that the loop's thread comes to a batch after
the expiration. It does so again and again, whatever is pushed and whatever the callbacks do
(`Rounds.timers_again`), unless it is stuck at a wait without a timeout; and that does not happen while
there are timers if the expiration that the timeout was computed from was `Waitable`. -/

namespace Chaining.Loop.Due

open Chaining.Base.Fair Chaining.Outcome
open Chaining.Loop.Tasks Chaining.Loop.Wakeup Chaining.Loop.Liveness Chaining.Loop.Service
open Chaining.Loop.Requests Chaining.Loop.Rounds
open Chaining.Time.Defs Chaining.Time.Batch Chaining.Time.Registering Chaining.Time.Cancel
open Chaining.Time.History Chaining.Time.Snapshot Chaining.Time.Firing Chaining.Time.Pace
open Chaining.Time.Timeout

variable {θ : Type*} [DecidableEq θ] {s s' : Service.State θ} {t : Timer}

/-- The timer is in the queue. -/
def Queued (t : Timer) (l : EventLoop) : Prop := t ∈ l.timers.timers.toList

/-- Since a moment with this history the timer has been run, in a batch that it was due at. -/
def RanSince (log : List Event) (t : Timer) (l : EventLoop) : Prop :=
  ∃ new c, l.log = new ++ log ∧ .ran t c ∈ new ∧ t.expTime ≤ c

/-! ### One step -/

theorem actAll_queued {l l' : EventLoop} {acts : List Act} (hacts : ∀ a ∈ acts, Act.Registers a)
    (he : l.actAll acts = .ok l') (ht : Queued t l) : Queued t l' := by
  obtain ⟨l₁, he₁, hgrows⟩ := actAll_grows l hacts
  cases he₁.symm.trans he
  exact hgrows.timers.mem_iff.mpr (List.mem_append_right _ ht)

/-- A timer that is not due at the reading of a batch is in the queue behind it. -/
theorem exec_queued {l l' : EventLoop} (h : WellFormed l) {curr : ℤ} {calls : ℕ → Call}
    (hcalls : ∀ i, ∀ a ∈ (calls i).acts, Act.Registers a)
    (he : l.execExpiredTimesTask curr calls = .ok l') (ht : Queued t l) (hlt : curr < t.expTime) :
    Queued t l' := by
  obtain ⟨⟨new, hperm⟩, -⟩ := exec_adds h curr hcalls he
  have hlater : t ∈ later l curr := List.mem_filter.mpr ⟨ht, decide_eq_true hlt⟩
  exact hperm.mem_iff.mpr (List.mem_append_right new hlater)

/-- A timer that is due at it is run. -/
theorem exec_ran {l l' : EventLoop} (h : WellFormed l) {curr : ℤ} {calls : ℕ → Call}
    (hcalls : ∀ i, ∀ a ∈ (calls i).acts, Act.Registers a)
    (he : l.execExpiredTimesTask curr calls = .ok l') (ht : Queued t l) (hle : t.expTime ≤ curr) :
    RanSince l.log t l' := by
  obtain ⟨-, new, hlog, hruns⟩ := exec_adds h curr hcalls he
  have hmem : (t, curr) ∈ (runsOf new).reverse := by
    rw [hruns]
    exact List.mem_map_of_mem (List.mem_filter.mpr ⟨ht, decide_eq_true hle⟩)
  obtain ⟨e, hmem', heq⟩ := List.mem_filterMap.mp (List.mem_reverse.mp hmem)
  cases e with
  | ran v d =>
    cases heq
    exact ⟨new, curr, hlog, hmem', hle⟩
  | created | rearmed => cases heq

/-- **A batch** runs the timer or leaves it in the queue. -/
theorem exec_queued_or_ran {l l' : EventLoop} (h : WellFormed l) {curr : ℤ} {calls : ℕ → Call}
    (hcalls : ∀ i, ∀ a ∈ (calls i).acts, Act.Registers a)
    (he : l.execExpiredTimesTask curr calls = .ok l') (ht : Queued t l) :
    Queued t l' ∨ RanSince l.log t l' := by
  rcases lt_or_ge curr t.expTime with hlt | hle
  · exact Or.inl (exec_queued h hcalls he ht hlt)
  · exact Or.inr (exec_ran h hcalls he ht hle)

/-- **A timer in the queue** is there after a step, or has been run in it. -/
theorem Step.queued (hs : Service.Step s s') (hsound : Sound s.timers) (ht : Queued t s.timers) :
    Queued t s'.timers ∨ RanSince s.timers.log t s'.timers := by
  cases hs with
  | tick | elsewhere | push | quiet => exact Or.inl ht
  | callback fd rest acts timers hpc hacts he => exact Or.inl (actAll_queued hacts he ht)
  | task acts timers hpc hacts he => exact Or.inl (actAll_queued hacts he ht)
  | request r timers hpc he =>
    have htake := register_eq s.timers (registers_of_ok he)
    cases htake.symm.trans he
    exact Or.inl ((s.timers.timers.timers.perm_insert _).mem_iff.mpr (List.mem_cons_of_mem _ ht))
  | batch calls timers now hpc hcalls hnow he =>
    exact exec_queued_or_ran (wellFormed_of_inv hsound.between hsound.inv) hcalls he ht

/-- The only way out of the timers is a batch. -/
theorem Step.left_timers (hs : Service.Step s s') (hsound : Sound s.timers)
    (hpc : s.threads.pc = .timers) (hleft : s'.threads.pc ≠ s.threads.pc) (ht : Queued t s.timers)
    (hdue : t.expTime ≤ s.clock) : RanSince s.timers.log t s'.timers := by
  cases hs with
  | tick | elsewhere | push => exact absurd rfl hleft
  | quiet w hw hpushed hq =>
    rcases hq with hq | hq
    · exact absurd hq hleft
    · exact absurd (by rw [hpc]; trivial) hq
  | batch calls timers now hat hcalls hnow he =>
    exact exec_ran (wellFormed_of_inv hsound.between hsound.inv) hcalls he ht hdue
  | callback _ _ _ _ hat | request _ _ hat | task _ _ hat =>
    rw [hpc] at hat
    cases hat

/-! ### Behaviours -/

variable {b : ℕ → Service.State θ} {gId : ℕ} {clock : ℤ}

/-- **A timer in the queue stays there until it is run.** -/
theorem waits_or_ran (h0 : b 0 = Service.init gId clock) (hb : Behaviour Service.Step b) {n : ℕ}
    (ht : Queued t (b n).timers) {m : ℕ} (hnm : n ≤ m) :
    ((∃ new, (b m).timers.log = new ++ (b n).timers.log) ∧ Queued t (b m).timers) ∨
      RanSince (b n).timers.log t (b m).timers := by
  induction m, hnm using Nat.le_induction with
  | base => exact Or.inl ⟨⟨[], rfl⟩, ht⟩
  | succ m hnm ih =>
    have hsound := (reachable_of_behaviour h0 hb m).sound
    rcases hb m with hs | heq
    · obtain ⟨new', hlog'⟩ := (Step.timers hs hsound).log
      rcases ih with ⟨⟨new, hlog⟩, hq⟩ | ⟨new, c, hlog, hran, hle⟩
      · rw [hlog, ← List.append_assoc] at hlog'
        rcases Step.queued hs hsound hq with hq' | ⟨new₁, c, hlog₁, hran, hle⟩
        · exact Or.inl ⟨⟨_, hlog'⟩, hq'⟩
        · rw [hlog, ← List.append_assoc] at hlog₁
          exact Or.inr ⟨_, c, hlog₁, List.mem_append_left _ hran, hle⟩
      · rw [hlog, ← List.append_assoc] at hlog'
        exact Or.inr ⟨_, c, hlog', List.mem_append_right _ hran, hle⟩
    · rwa [heq]

/-- The clock is not set back. -/
theorem clock_mono (hb : Behaviour Service.Step b) {n m : ℕ} (hnm : n ≤ m) :
    (b n).clock ≤ (b m).clock := by
  refine hb.mono (r := fun s s' : Service.State θ => s.clock ≤ s'.clock)
    (fun _ => le_rfl) (fun _ _ _ h h' => h.trans h') (fun s s' hs => ?_) hnm
  cases hs with
  | tick now hnow => exact hnow
  | batch calls timers now hpc hcalls hnow he => exact (hnow 0).1.trans (hnow 0).2
  | elsewhere | push | quiet | callback | request | task => exact le_rfl

/-- **What is promised**: the threads are fair, the clock goes on, and `epoll_wait` returns at its
timeout. The timeout was computed before the wait, when the clock read `reading`. -/
structure Promised (b : ℕ → Service.State θ) (reading : ℕ → ℤ) : Prop where
  fair : Fair fun n => (b n).threads
  clock : ∀ x, ∃ n, x ≤ (b n).clock
  returns : ∀ n, (b n).threads.pc = .wait → 0 ≤ timeout (b n).timers.timers (reading n) →
    ∃ m ≥ n, (b m).threads.pc ≠ .wait

/-- There is a first timer if there is any. -/
theorem exists_head {q : TimerQueue} (ht : t ∈ q.timers.toList) :
    ∃ u ∈ q.timers.toList.head?, q.getNextExpiredTime = u.expTime := by
  unfold TimerQueue.getNextExpiredTime
  cases hq : q.timers.toList with
  | nil =>
    rw [hq] at ht
    exact absurd ht List.not_mem_nil
  | cons u rest => exact ⟨u, rfl, rfl⟩

/-- **Every timer is run in the end**, whatever the other threads push and whatever the callbacks do, if
at each wait the expiration that the timeout was computed from was `Waitable`. -/
theorem every_timer_fires [Fintype θ] (h0 : b 0 = Service.init gId clock)
    (hb : Behaviour Service.Step b) {reading : ℕ → ℤ} (hp : Promised b reading)
    (hwaitable : ∀ n, (b n).threads.pc = .wait →
      ∀ t ∈ (b n).timers.timers.timers.toList.head?, Waitable t.expTime (reading n))
    {n : ℕ} (ht : t ∈ (b n).timers.timers.timers.toList) :
    ∃ m ≥ n, ∃ new c, (b m).timers.log = new ++ (b n).timers.log ∧ .ran t c ∈ new ∧
      t.expTime ≤ c := by
  by_contra hnever
  have hqueued : ∀ m ≥ n, Queued t (b m).timers := fun m hm =>
    ((waits_or_ran h0 hb ht hm).resolve_right fun hran => hnever ⟨m, hm, hran⟩).2
  -- from then on no wait blocks, as the queue is not empty
  have hwait : ∀ m ≥ n, (b m).threads.pc = .wait → ∃ l ≥ m, (b l).threads.pc ≠ .wait := by
    intro m hm hpc
    refine hp.returns m hpc ?_
    obtain ⟨u, hu, hnext⟩ := exists_head (hqueued m hm)
    unfold timeout
    rw [hnext]
    exact ((wait_le_iff _ _).mpr (hwaitable m hpc u hu)).1
  obtain ⟨k, hk⟩ := hp.clock t.expTime
  have hexec := (execution_threads h0 hb).steps.shift (n + k)
  have hfair := hp.fair.loop.shift (n + k)
  obtain ⟨i, -, hi⟩ := timers_again hexec hfair (fun j hj => by
    obtain ⟨l, hl, hleft⟩ := hwait (n + k + j) (by omega) hj
    have heq : n + k + (l - (n + k)) = l := by omega
    exact ⟨l - (n + k), by omega, by rwa [heq]⟩) 0
  obtain ⟨m, hm, hpc, hleft⟩ := leaves_timers hp.fair.loop hi
  have hnm : n ≤ m := by omega
  rcases waits_or_ran h0 hb ht hnm with ⟨⟨new, hlog⟩, hq⟩ | hran
  · rcases hb m with hs | heq
    · have hdue : t.expTime ≤ (b m).clock := hk.trans (clock_mono hb (by omega))
      obtain ⟨new', c, hlog', hran, hle⟩ :=
        Step.left_timers hs (reachable_of_behaviour h0 hb m).sound hpc hleft hq hdue
      rw [hlog, ← List.append_assoc] at hlog'
      exact hnever ⟨m + 1, Nat.le_succ_of_le hnm, _, c, hlog', List.mem_append_left _ hran, hle⟩
    · exact hleft (congrArg (fun s => s.threads.pc) heq)
  · exact hnever ⟨m, hnm, hran⟩

/-- A callback has registered a timer. -/
def registering : Service.State Bool where
  threads := { Wakeup.init with pc := .handle [] }
  timers := (Time.Batch.init 0).take (.oneShot 0 true 3)
  clock := 0
  pushedAt := []
  made := []

/-- It has been run, and the loop's thread is at the wait. -/
def fired : Service.State Bool where
  threads := Wakeup.init
  timers := { Time.Batch.init 1 with log := [.ran (.oneShot 0 true 3) 5, .created (.oneShot 0 true 3)] }
  clock := 5
  pushedAt := []
  made := []

/-- A timer that is not due in the first batch behind its registration, and is in the second. -/
def oneTimer : ℕ → Service.State Bool
  | 0 => Service.init 0 0
  | 1 => { registering with
      threads := { Wakeup.init with pc := .handle [.other 0] }, timers := Time.Batch.init 0 }
  | 2 => registering
  | 3 => { registering with threads := { Wakeup.init with pc := .timers } }
  | 4 => { registering with threads := { Wakeup.init with pc := .test } }
  | 5 => { registering with threads := Wakeup.init }
  | 6 => { registering with threads := Wakeup.init, clock := 5 }
  | 7 => { registering with threads := { Wakeup.init with pc := .handle [] }, clock := 5 }
  | 8 => { registering with threads := { Wakeup.init with pc := .timers }, clock := 5 }
  | 9 => { fired with threads := { Wakeup.init with pc := .test } }
  | 10 => fired
  | n + 11 => { fired with clock := n + 11 }

theorem behaviour_oneTimer : Behaviour Service.Step oneTimer
  | 0 => Or.inl (.quiet _ _ (.waitReturns _ [.other 0] rfl (by decide) (by simp)) rfl (Or.inr id))
  | 1 => Or.inl (.callback _ 0 [] [.register (.runUntil true 3)] _ rfl (by simp [Act.Registers]) rfl)
  | 2 => Or.inl (.quiet _ _ (.handled _ rfl) rfl (Or.inr id))
  | 3 => Or.inl (.batch _ (fun _ => ⟨[], 0⟩) _ 0 rfl (by simp) (fun _ => ⟨le_rfl, le_rfl⟩) rfl)
  | 4 => Or.inl (.quiet _ _ (.testEmpty _ rfl rfl) rfl (Or.inr id))
  | 5 => Or.inl (.tick (oneTimer 5) 5 (by decide))
  | 6 => Or.inl (.quiet _ _ (.waitReturns _ [] rfl (by decide) (by simp)) rfl (Or.inr id))
  | 7 => Or.inl (.quiet _ _ (.handled _ rfl) rfl (Or.inr id))
  | 8 => Or.inl (.batch _ (fun _ => ⟨[], 5⟩) _ 5 rfl (by simp) (fun _ => ⟨le_rfl, le_rfl⟩) rfl)
  | 9 => Or.inl (.quiet _ _ (.testEmpty _ rfl rfl) rfl (Or.inr id))
  | 10 => Or.inl (.tick fired 11 (by decide))
  | n + 11 => by
    have hle : (n : ℤ) + 11 ≤ (n + 1 : ℕ) + 11 := by omega
    exact Or.inl (.tick (oneTimer (n + 11)) _ hle)

theorem promised_oneTimer : Promised oneTimer fun _ => 0 where
  fair := {
    loop n h := absurd (h (n + 11) (Nat.le_add_right n 11) rfl) (lt_irrefl 0)
    signal i n h := by
      have hi := (h (n + 11) (Nat.le_add_right n 11)).1
      cases hi }
  clock x := by
    refine ⟨x.toNat + 11, ?_⟩
    show x ≤ (x.toNat : ℤ) + 11
    omega
  returns
    | 0, _, _ => ⟨1, by decide, by simp [oneTimer]⟩
    | 5, _, _ => ⟨7, by decide, by simp [oneTimer]⟩
    | 6, _, _ => ⟨7, by decide, by simp [oneTimer]⟩
    | 10, _, h | n + 11, _, h => absurd h (show ¬ 0 ≤ timeout (Time.Batch.init 1).timers 0 by decide)
    | 1, h, _ | 2, h, _ | 3, h, _ | 4, h, _ | 7, h, _ | 8, h, _ | 9, h, _ => by cases h

theorem every_timer_fires_one :
    ∃ m ≥ 2, ∃ new c, (oneTimer m).timers.log = new ++ (oneTimer 2).timers.log ∧
      .ran (.oneShot 0 true 3) c ∈ new ∧ (Timer.oneShot 0 true 3).expTime ≤ c := by
  refine every_timer_fires rfl behaviour_oneTimer promised_oneTimer (fun n _ t ht => ?_)
    (n := 2) (t := .oneShot 0 true 3) List.mem_cons_self
  match n with
  | 0 | 1 | 9 | 10 | _ + 11 => cases ht
  | 2 | 3 | 4 | 5 | 6 | 7 | 8 =>
    cases ht
    decide

end Chaining.Loop.Due
