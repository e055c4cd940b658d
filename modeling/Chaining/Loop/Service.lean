import Chaining.Loop.Wakeup
import Chaining.Time.Pace

/-! # The whole loop

The parts of the loop in one machine: the threads with their queue of tasks, and the timers. A request
for a timer (`EventLoop::runAfter` and its siblings) that another thread makes is queued as a task, and
it is only when the loop's thread runs that task that the clock is read and the timer made. Callbacks
of channels, timers and tasks run on the loop's thread, where the same functions make the timer at
once.

`Step` puts each atomic step of the threads beside what it does to the timers. Seen without the timers
it is a step of the threads (`Step.threads`), seen without the threads it is a sequence of transfers of
the ledger of timers (`Step.timers`); so both invariants hold of the whole. The clock of this machine is
not set back. The program's side of the interface is all there is to timers here: it can make them, and
it is given no handle to cancel them. -/

namespace Chaining.Loop.Service

open Relation (ReflTransGen)
open Chaining.Base.Runs Chaining.Outcome Chaining.Loop.Tasks Chaining.Loop.Wakeup
open Chaining.Time.Defs Chaining.Time.Batch Chaining.Time.Registering Chaining.Time.Transfer
open Chaining.Time.History Chaining.Time.Snapshot Chaining.Time.Pace

/-- What a thread may ask for. -/
inductive Request where
  | runAfter (timercb : Bool) (milliseconds : ℤ)
  | runUntil (timercb : Bool) (expireTime : ℤ)
  | runEvery (timercb : Bool) (milliseconds : ℤ)

/-- What the request is when it is carried out, at this reading of the clock. -/
def Request.registration (now : ℤ) : Request → Registration
  | .runAfter timercb milliseconds => .runAfter timercb milliseconds now
  | .runUntil timercb expireTime => .runUntil timercb expireTime
  | .runEvery timercb milliseconds => .runEvery timercb milliseconds now

/-- The instant that a request asks for when it is made at this moment. -/
def Request.instant (now : ℤ) : Request → ℤ
  | .runAfter _ milliseconds => now + milliseconds * 1000000
  | .runUntil _ expireTime => expireTime
  | .runEvery _ milliseconds => now + milliseconds * 1000000

def Request.interval : Request → ℤ
  | .runAfter .. | .runUntil .. => 0
  | .runEvery _ milliseconds => milliseconds

/-- A pending task: a request of another thread, or any other function. -/
inductive Task where
  | request (r : Request)
  | other

/-- The threads and the timers. `clock` is what the clock reads; `pushedAt` and `made` are histories: the
reading at which each task was pushed, and for each task that has been run the id of the timer it made, if
it was a request. -/
structure State (θ : Type*) where
  threads : Wakeup.State θ Task
  timers : EventLoop
  clock : ℤ
  pushedAt : List ℤ
  made : List (Option ℕ)

variable {θ : Type*} [DecidableEq θ]

/-- Where the loop's thread is about to run something that may make timers. -/
def Touches : Pc Task → Prop
  | .handle (.other _ :: _) | .timers | .task _ => True
  | _ => False

/-- One atomic step. The acts of callbacks and of other tasks come from outside. -/
inductive Step : State θ → State θ → Prop
  | tick (s : State θ) (now : ℤ) (hnow : s.clock ≤ now) : Step s { s with clock := now }
  /-- Another loop takes ids. -/
  | elsewhere (s : State θ) (n : ℕ) :
      Step s { s with timers := { s.timers with gId := s.timers.gId + n } }
  | push (s : State θ) (i : θ) (t : Task) (hi : s.threads.signalling i = false) :
      Step s { s with
        threads := { s.threads with
          pendingTasks := s.threads.pendingTasks.push t
          signalling := Function.update s.threads.signalling i true
          pushed := s.threads.pushed ++ [t] }
        pushedAt := s.pushedAt ++ [s.clock] }
  /-- A step of the threads that pushes nothing and makes no timers. -/
  | quiet (s : State θ) (threads : Wakeup.State θ Task) (h : Wakeup.Step s.threads threads)
      (hpushed : threads.pushed = s.threads.pushed)
      (hpc : threads.pc = s.threads.pc ∨ ¬ Touches s.threads.pc) : Step s { s with threads := threads }
  /-- `handleEvent` of a channel. -/
  | callback (s : State θ) (fd : ℕ) (rest : List Descriptor) (acts : List Act) (timers : EventLoop)
      (hpc : s.threads.pc = .handle (.other fd :: rest)) (hacts : ∀ a ∈ acts, Act.Registers a)
      (he : s.timers.actAll acts = .ok timers) :
      Step s { s with threads := { s.threads with pc := .handle rest }, timers := timers }
  /-- `execExpiredTimesTask`; time passes while the callbacks run. -/
  | batch (s : State θ) (calls : ℕ → Call) (timers : EventLoop) (now : ℤ)
      (hpc : s.threads.pc = .timers) (hcalls : ∀ i, ∀ a ∈ (calls i).acts, Act.Registers a)
      (hnow : ∀ i, s.clock ≤ (calls i).now ∧ (calls i).now ≤ now)
      (he : s.timers.execExpiredTimesTask s.clock calls = .ok timers) :
      Step s { s with threads := { s.threads with pc := .test }, timers := timers, clock := now }
  /-- The task of a request makes its timer. -/
  | request (s : State θ) (r : Request) (timers : EventLoop)
      (hpc : s.threads.pc = .task (.request r))
      (he : s.timers.register (r.registration s.clock) = .ok timers) :
      Step s { s with
        threads := { s.threads with pc := .test }
        timers := timers
        made := s.made ++ [some s.timers.gId] }
  | task (s : State θ) (acts : List Act) (timers : EventLoop) (hpc : s.threads.pc = .task .other)
      (hacts : ∀ a ∈ acts, Act.Registers a) (he : s.timers.actAll acts = .ok timers) :
      Step s { s with
        threads := { s.threads with pc := .test }
        timers := timers
        made := s.made ++ [none] }

/-- A loop that has just been constructed, when `gId` ids have been taken by others. -/
def init (gId : ℕ) (clock : ℤ) : State θ where
  threads := Wakeup.init
  timers := Time.Batch.init gId
  clock := clock
  pushedAt := []
  made := []

/-- The states that some interleaving reaches. -/
def Reachable (s : State θ) : Prop := ∃ gId clock, ReflTransGen Step (init gId clock) s

variable {s s' : State θ}

/-! ### The two sides -/

/-- **Without the timers** a step is one of the threads, or none of theirs. -/
theorem Step.threads (h : Step s s') :
    Wakeup.Step s.threads s'.threads ∨ s'.threads = s.threads := by
  cases h with
  | tick | elsewhere => exact Or.inr rfl
  | push i t hi => exact Or.inl (.push s.threads i t hi)
  | quiet threads h => exact Or.inl h
  | callback fd rest acts timers hpc => exact Or.inl (.handleOther s.threads fd rest hpc)
  | batch calls timers now hpc => exact Or.inl (.timersDone s.threads hpc)
  | request r timers hpc => exact Or.inl (.taskDone s.threads (.request r) hpc)
  | task acts timers hpc => exact Or.inl (.taskDone s.threads .other hpc)

theorem Reachable.threads (h : Reachable s) : Wakeup.Reachable s.threads := by
  obtain ⟨gId, clock, h⟩ := h
  induction h with
  | refl => exact .refl
  | tail _ hstep ih =>
    rcases Step.threads hstep with hs | heq
    · exact ih.tail hs
    · rwa [heq]

/-- What is done to the timers keeps the account, and only adds to the history. -/
structure Keeps (l l' : EventLoop) : Prop where
  sound : Sound l'
  gId : l.gId ≤ l'.gId
  log : ∃ new, l'.log = new ++ l.log

theorem Keeps.refl {l : EventLoop} (h : Sound l) : Keeps l l := ⟨h, le_rfl, [], rfl⟩

theorem Keeps.trans {l l' l'' : EventLoop} (h : Keeps l l') (h' : Keeps l' l'') : Keeps l l'' := by
  obtain ⟨new, hlog⟩ := h.log
  obtain ⟨new', hlog'⟩ := h'.log
  exact ⟨h'.sound, h.gId.trans h'.gId, new' ++ new, by rw [hlog', hlog, List.append_assoc]⟩

theorem act_keeps {l l' : EventLoop} (h : Sound l) {a : Act} (ha : Act.Registers a)
    (he : l.act a = .ok l') : Keeps l l' := by
  obtain ⟨l₁, hstep, hs, hgId, hlog⟩ := @Sound.step _ h (.act a) ha trivial
  cases (step_act he).symm.trans hstep
  exact ⟨hs, hgId, hlog⟩

theorem actAll_keeps : ∀ {l l' : EventLoop} {acts : List Act}, Sound l → (∀ a ∈ acts, Act.Registers a) →
    l.actAll acts = .ok l' → Keeps l l'
  | l, _, [], h, _, he => by
    cases he
    exact .refl h
  | l, _, a :: acts, h, hacts, he => by
    obtain ⟨l₁, hact, he⟩ := bind_eq_ok.mp he
    have hk := act_keeps h (hacts a List.mem_cons_self) hact
    exact hk.trans (actAll_keeps hk.sound (fun b hb => hacts b (List.mem_cons_of_mem a hb)) he)

/-- A registration that passes the `assert`s is one of a positive interval, if of any. -/
theorem registers_of_ok {l l' : EventLoop} {r : Registration} (he : l.register r = .ok l') :
    Act.Registers (.register r) := by
  cases r with
  | runAfter | runUntil => trivial
  | runEvery timercb ms now =>
    by_contra hms
    have hms : ¬ 0 < ms := hms
    simp [EventLoop.register, EventLoop.runEvery, Timer.repeating, hms] at he

/-- **Without the threads** a step keeps the account of the timers. -/
theorem Step.timers (h : Step s s') (hs : Sound s.timers) : Keeps s.timers s'.timers := by
  cases h with
  | tick | push | quiet => exact .refl hs
  | elsewhere n => exact act_keeps (a := .elsewhere n) hs trivial rfl
  | callback fd rest acts timers hpc hacts he => exact actAll_keeps hs hacts he
  | task acts timers hpc hacts he => exact actAll_keeps hs hacts he
  | request r timers hpc he =>
    exact act_keeps (a := .register (r.registration s.clock)) hs (registers_of_ok he) he
  | batch calls timers now hpc hcalls hnow he =>
    obtain ⟨l₁, hstep, hl, hgId, hlog⟩ :=
      @Sound.step _ hs (.exec s.clock calls) hcalls fun i => (hnow i).1
    cases (step_exec he).symm.trans hstep
    exact ⟨hl, hgId, hlog⟩

theorem Reachable.sound (h : Reachable s) : Sound s.timers := by
  obtain ⟨gId, clock, h⟩ := h
  induction h with
  | refl => exact sound_init gId
  | tail _ hstep ih => exact (Step.timers hstep ih).sound

end Chaining.Loop.Service
