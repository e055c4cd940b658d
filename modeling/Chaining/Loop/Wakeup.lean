import Chaining.Loop.Tasks
import Mathlib.Logic.Relation

/-! # Waking the loop

Other threads hand tasks to the loop in two steps: they push the task under the lock, and then add
one to the counter of an event descriptor that the loop's `epoll_wait` watches. The loop's thread
cycles through the wait, the ready channels (that of the event descriptor resets its counter), the
expired timers and the pending tasks, which it drains by testing for emptiness and popping under two
separate locks.

`Step` is one atomic step of some thread: a lock held, a system call, or the work the loop's thread
does between two of them. A state is reachable by any interleaving (`Reachable`), and `Inv` holds in
all of them. The loop's thread goes to the wait only from a step that saw the queue empty, so a task
that is in the queue there was pushed afterwards; the signal that follows is either still to come or
has left the counter positive, because the counter is only reset behind the wait. -/

namespace Chaining.Loop.Wakeup

open Chaining.Loop.Tasks

variable {θ τ : Type*} [DecidableEq θ]

/-- The largest value an event descriptor's counter can have. -/
def counterMax : ℕ := 0xfffffffffffffffe

/-- `write` of the number one in `WakeUp::Signal`: it fails with `EAGAIN` when the counter would pass
its maximum, and `Signal` tries again. -/
def signal (counter : ℕ) : Option ℕ := if counter + 1 ≤ counterMax then some (counter + 1) else none

/-- `read` in `WakeUp::handleRead`: it takes the whole counter, and fails with `EAGAIN` when that is
zero, on which `handleRead` tries again. -/
def handleRead (counter : ℕ) : Option ℕ := if counter = 0 then none else some 0

/-- A descriptor the wait can report: the event descriptor of the wake-up, or another one. -/
inductive Descriptor where
  | wakeup
  | other (fd : ℕ)
  deriving DecidableEq

/-- Where the loop's thread is. -/
inductive Pc (τ : Type*) where
  /-- at `epoll_wait` -/
  | wait
  /-- in `loop`, with these ready channels still to be handled -/
  | handle (ready : List Descriptor)
  /-- in `execExpiredTimesTask` -/
  | timers
  /-- in `doPendingTask`, at the test for emptiness -/
  | test
  /-- in `doPendingTask`, at `try_pop` -/
  | pop
  /-- in `doPendingTask`, running this task -/
  | task (t : τ)

/-- The loop and the other threads, with two histories that the source does not keep: the tasks
pushed, and the tasks that `doPendingTask` has started. -/
structure State (θ τ : Type*) where
  pc : Pc τ
  pendingTasks : BlockQueue τ
  counter : ℕ
  /-- this thread is in `queueInLoopThread`, between its `push` and the end of its `Signal` -/
  signalling : θ → Bool
  pushed : List τ
  started : List τ

/-- A loop that has been constructed, and other threads that have not called it. -/
def init : State θ τ where
  pc := .wait
  pendingTasks := ⟨[]⟩
  counter := 0
  signalling _ := false
  pushed := []
  started := []

/-- One atomic step of the loop's thread or of another one. -/
inductive Step : State θ τ → State θ τ → Prop
  /-- `epoll_wait` returns: on a timeout or a signal with nothing, otherwise with any of the ready
  descriptors, each once; the event descriptor is ready only with a positive counter. -/
  | waitReturns (s : State θ τ) (ready : List Descriptor) (hpc : s.pc = .wait)
      (hnodup : ready.Nodup) (hready : .wakeup ∈ ready → 0 < s.counter) :
      Step s { s with pc := .handle ready }
  /-- `handleEvent` of the wake-up channel, that is `handleRead`. -/
  | handleWakeup (s : State θ τ) (rest : List Descriptor) (counter : ℕ)
      (hpc : s.pc = .handle (.wakeup :: rest)) (hread : handleRead s.counter = some counter) :
      Step s { s with pc := .handle rest, counter := counter }
  /-- `handleRead` finds the counter zero and tries again. -/
  | spinRead (s : State θ τ) (rest : List Descriptor) (hpc : s.pc = .handle (.wakeup :: rest))
      (hread : handleRead s.counter = none) : Step s s
  | handleOther (s : State θ τ) (fd : ℕ) (rest : List Descriptor)
      (hpc : s.pc = .handle (.other fd :: rest)) : Step s { s with pc := .handle rest }
  | handled (s : State θ τ) (hpc : s.pc = .handle []) : Step s { s with pc := .timers }
  | timersDone (s : State θ τ) (hpc : s.pc = .timers) : Step s { s with pc := .test }
  | testNonempty (s : State θ τ) (hpc : s.pc = .test) (hempty : s.pendingTasks.empty = false) :
      Step s { s with pc := .pop }
  | testEmpty (s : State θ τ) (hpc : s.pc = .test) (hempty : s.pendingTasks.empty = true) :
      Step s { s with pc := .wait }
  /-- `try_pop` succeeds and its task is started. -/
  | popTask (s : State θ τ) (q : BlockQueue τ) (t : τ) (hpc : s.pc = .pop)
      (hpop : s.pendingTasks.tryPop = (q, some t)) :
      Step s { s with pc := .task t, pendingTasks := q, started := s.started ++ [t] }
  | popNothing (s : State θ τ) (q : BlockQueue τ) (hpc : s.pc = .pop)
      (hpop : s.pendingTasks.tryPop = (q, none)) :
      Step s { s with pc := .wait, pendingTasks := q }
  | taskDone (s : State θ τ) (t : τ) (hpc : s.pc = .task t) : Step s { s with pc := .test }
  /-- `queueInLoopThread` on another thread: the push. On the loop's own thread it runs the task at
  once and touches neither the queue nor the counter. -/
  | push (s : State θ τ) (i : θ) (t : τ) (hi : s.signalling i = false) :
      Step s { s with
        pendingTasks := s.pendingTasks.push t
        signalling := Function.update s.signalling i true
        pushed := s.pushed ++ [t] }
  /-- `queueInLoopThread` on another thread: the signal. -/
  | signalled (s : State θ τ) (i : θ) (counter : ℕ) (hi : s.signalling i = true)
      (hwrite : signal s.counter = some counter) :
      Step s { s with signalling := Function.update s.signalling i false, counter := counter }
  /-- The counter is at its maximum and `Signal` tries again. -/
  | spinWrite (s : State θ τ) (i : θ) (hi : s.signalling i = true)
      (hwrite : signal s.counter = none) : Step s s

/-- The states that some interleaving reaches. -/
def Reachable (s : State θ τ) : Prop := Relation.ReflTransGen Step init s

/-- A wake-up is under way. -/
def Woken (s : State θ τ) : Prop := 0 < s.counter ∨ ∃ i, s.signalling i = true

/-- **The invariant**, by where the loop's thread is. -/
structure Inv (s : State θ τ) : Prop where
  wait : s.pc = .wait → s.pendingTasks.tasks ≠ [] → Woken s
  handle : ∀ ready, s.pc = .handle ready → ready.Nodup ∧ (.wakeup ∈ ready → 0 < s.counter)
  order : s.started ++ s.pendingTasks.tasks = s.pushed

theorem signal_pos {c c' : ℕ} (h : signal c = some c') : 0 < c' := by
  unfold signal at h
  split_ifs at h
  cases h
  exact Nat.succ_pos c

omit [DecidableEq θ] in
theorem inv_init : Inv (init : State θ τ) where
  wait _ h := absurd rfl h
  handle _ h := by cases h
  order := rfl

/-- **Every step keeps the invariant.** -/
theorem Step.inv {s s' : State θ τ} (h : Step s s') (hI : Inv s) : Inv s' := by
  cases h with
  | waitReturns ready hpc hnodup hready =>
    constructor
    case wait => simp
    case handle =>
      intro r hr
      obtain rfl : ready = r := by simpa using hr
      exact ⟨hnodup, hready⟩
    case order => exact hI.order
  | handleWakeup rest counter hpc hread =>
    -- the counter is zero now, but each descriptor is reported once
    obtain ⟨hnodup, -⟩ := hI.handle _ hpc
    obtain ⟨hnot, hrest⟩ := List.nodup_cons.mp hnodup
    constructor
    case wait => simp
    case handle =>
      intro r hr
      obtain rfl : rest = r := by simpa using hr
      exact ⟨hrest, fun hmem => absurd hmem hnot⟩
    case order => exact hI.order
  | spinRead => exact hI
  | handleOther fd rest hpc =>
    obtain ⟨hnodup, hpos⟩ := hI.handle _ hpc
    constructor
    case wait => simp
    case handle =>
      intro r hr
      obtain rfl : rest = r := by simpa using hr
      exact ⟨(List.nodup_cons.mp hnodup).2, fun hmem => hpos (List.mem_cons_of_mem _ hmem)⟩
    case order => exact hI.order
  | handled | timersDone | testNonempty | taskDone => exact ⟨by simp, by simp, hI.order⟩
  | testEmpty hpc hempty =>
    have hnil := s.pendingTasks.empty_eq_true.mp hempty
    exact ⟨fun _ hne => absurd hnil hne, by simp, hI.order⟩
  | popTask q t hpc hpop =>
    have htasks := BlockQueue.tryPop_some hpop
    refine ⟨by simp, by simp, ?_⟩
    rw [← hI.order, htasks]
    simp
  | popNothing q hpc hpop =>
    obtain ⟨hnil, rfl⟩ := BlockQueue.tryPop_none hpop
    exact ⟨fun _ hne => absurd hnil hne, by simp, hI.order⟩
  | push i t hi =>
    have hsignalling : Function.update s.signalling i true i = true := Function.update_self ..
    refine ⟨fun _ _ => Or.inr ⟨i, hsignalling⟩, hI.handle, ?_⟩
    rw [BlockQueue.tasks_push, ← List.append_assoc, hI.order]
  | signalled i counter hi hwrite =>
    have hpos := signal_pos hwrite
    exact ⟨fun _ _ => Or.inl hpos, fun r hr => ⟨(hI.handle r hr).1, fun _ => hpos⟩, hI.order⟩
  | spinWrite => exact hI

theorem Reachable.inv {s : State θ τ} (h : Reachable s) : Inv s := by
  induction h with
  | refl => exact inv_init
  | tail _ hstep ih => exact hstep.inv ih

/-- **No lost wake-up.** In every state that any interleaving reaches: the loop's thread is at the
wait with tasks in the queue only while a wake-up is under way; the tasks started, followed by those
in the queue, are the tasks pushed, in their order; and `handleRead` is executed only with a positive
counter, so that it returns. -/
theorem no_lost_wakeup {s : State θ τ} (h : Reachable s) :
    (s.pc = .wait → s.pendingTasks.tasks ≠ [] → 0 < s.counter ∨ ∃ i, s.signalling i = true) ∧
      s.started ++ s.pendingTasks.tasks = s.pushed ∧
      ∀ rest, s.pc = .handle (.wakeup :: rest) → 0 < s.counter := by
  have hI := h.inv
  exact ⟨hI.wait, hI.order, fun rest hpc => (hI.handle _ hpc).2 List.mem_cons_self⟩

/-- A thread has pushed a task and signalled, and the wait has returned with the event descriptor. -/
def wokenOnce : State Bool ℕ where
  pc := .handle [.wakeup]
  pendingTasks := ⟨[7]⟩
  counter := 1
  signalling := Function.update (Function.update (fun _ => false) true true) true false
  pushed := [7]
  started := []

theorem no_lost_wakeup_once :
    Reachable wokenOnce ∧
      (wokenOnce.pc = .wait → wokenOnce.pendingTasks.tasks ≠ [] →
        0 < wokenOnce.counter ∨ ∃ i, wokenOnce.signalling i = true) ∧
      wokenOnce.started ++ wokenOnce.pendingTasks.tasks = wokenOnce.pushed ∧
      ∀ rest, wokenOnce.pc = .handle (.wakeup :: rest) → 0 < wokenOnce.counter := by
  have h1 : Reachable _ := .single (.push (init : State Bool ℕ) true 7 rfl)
  have h2 : Reachable _ := h1.tail (.signalled _ true 1 rfl rfl)
  have h3 : Reachable wokenOnce :=
    h2.tail (.waitReturns _ [.wakeup] rfl (by decide) fun _ => Nat.one_pos)
  exact ⟨h3, no_lost_wakeup h3⟩

end Chaining.Loop.Wakeup
