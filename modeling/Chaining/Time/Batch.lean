import Chaining.Base.Ordered
import Chaining.Time.Defs

/-! # The timer queue and the loop's batches

The queue holds the timers in their order. Once per iteration the loop takes off those that are due at
one reading of the clock (`getExpiredTimes`) and runs them one after the other; a repeating one is
given a new expiration and handed back (`execExpiredTimesTask`). A callback may register further
timers and cancel any timer while it runs; what it does, and the readings of the clock, come from
outside (`Call`).

A timer is owned by the queue or by a slot of `expirationTimers`; `cancel` goes through a plain
pointer and so reaches it in both. -/

namespace Chaining.Time.Batch

open Chaining.Outcome Chaining.Base.Ordered Chaining.Time.Defs

structure TimerQueue where
  timers : OrderedList Timer.lt

namespace TimerQueue

variable (q : TimerQueue)

/-- The earliest expiration, or the default instant of an empty queue. -/
def getNextExpiredTime : ℤ :=
  match q.timers.toList with
  | [] => 0
  | t :: _ => t.expiration

/-- The timers that are due at the reading, in order, and the queue without them. -/
def getExpiredTimes (curr : ℤ) : List Timer × TimerQueue :=
  let (expired, rest) := q.timers.extract fun t => t.expiration ≤ curr
  (expired, ⟨rest⟩)

/-- The timers are moved out from the front. -/
theorem getExpiredTimes_append (curr : ℤ) :
    (q.getExpiredTimes curr).1 ++ (q.getExpiredTimes curr).2.timers.toList = q.timers.toList :=
  q.timers.extract_append _

variable {q} in
theorem expTime_le_of_mem {curr : ℤ} {t : Timer} (h : t ∈ (q.getExpiredTimes curr).1) :
    t.expTime ≤ curr := by
  have hp := OrderedList.extract_fst_pass (p := fun t : Timer => t.expiration ≤ curr) h
  exact of_decide_eq_true hp

variable {q} in
theorem lt_expTime_of_mem {curr : ℤ} {t : Timer}
    (h : t ∈ (q.getExpiredTimes curr).2.timers.toList) : curr < t.expTime := by
  have hp := OrderedList.extract_snd_fail (p := fun t : Timer => t.expiration ≤ curr)
    (fun a b ha hba => by
      have hle := Timer.expTime_le_of_not_lt hba
      have hlt : ¬ a.expTime ≤ curr := of_decide_eq_false ha
      exact decide_eq_false fun hb : b.expTime ≤ curr => hlt (hle.trans hb)) h
  exact not_le.mp (of_decide_eq_false hp)

def insert (timer : Timer) : TimerQueue := ⟨q.timers.insert timer⟩

/-- `addTimer`, with its two `assert`s; `none` is a null pointer. -/
def addTimer : Option Timer → Except Fault TimerQueue
  | none => .error .assertFailed
  | some timer =>
    if (q.timers.find timer).isSome then .error .assertFailed else .ok (q.insert timer)

end TimerQueue

/-- What happens to timers. `ran timer curr` is a run of `timer`, as it was then, in the batch whose
reading of the clock was `curr`; `rearmed timer now` is the end of its `reset`. -/
inductive Event where
  | created (timer : Timer)
  | ran (timer : Timer) (curr : ℤ)
  | rearmed (timer : Timer) (now : ℤ)

/-- The part of the loop that timers are about. `expirationTimers` are the slots that the loop over
the batch has not passed; of those it has passed, `passed` are the ones that still own a timer. The
history `log` has the latest event first; the source does not keep it. -/
structure EventLoop where
  gId : ℕ
  timers : TimerQueue
  expirationTimers : List Timer
  passed : List Timer
  log : List Event

/-- A registration, with the reading of the clock where it takes one. -/
inductive Registration where
  | runAfter (timercb : Bool) (milliseconds now : ℤ)
  | runUntil (timercb : Bool) (expireTime : ℤ)
  | runEvery (timercb : Bool) (milliseconds now : ℤ)

/-- What the program may do to timers between two iterations, or in a callback. `addTimer` hands over
a timer of its own making, a repeating one if an interval is given. Ids are counted for the whole
process, so that other loops take some too (`elsewhere`). -/
inductive Act where
  | register (r : Registration)
  | cancel (id : ℕ)
  | addTimer (timercb : Bool) (expTime : ℤ) (interval : Option ℤ)
  | elsewhere (n : ℕ)

/-- What the `i`-th timer of a batch does when it is run: the acts of its callback, and the reading of
the clock that `reset` takes afterwards. -/
structure Call where
  acts : List Act
  now : ℤ

/-- The ids that the acts cancel. -/
def cancels (acts : List Act) : List ℕ :=
  acts.filterMap fun
    | .cancel id => some id
    | _ => none

/-- A timer after the timers with these ids were cancelled. -/
def cancelIn (ids : List ℕ) (t : Timer) : Timer := if t.id ∈ ids then t.cancel else t

theorem cancelIn_frame (ids : List ℕ) (t : Timer) :
    (cancelIn ids t).id = t.id ∧ (cancelIn ids t).timercb = t.timercb ∧
      (cancelIn ids t).isRepeat = t.isRepeat ∧ (cancelIn ids t).expTime = t.expTime ∧
      (cancelIn ids t).interval = t.interval := by
  unfold cancelIn
  split_ifs <;> exact ⟨rfl, rfl, rfl, rfl, rfl⟩

theorem cancelIn_canceled (ids : List ℕ) (t : Timer) :
    (cancelIn ids t).canceled = true ↔ t.canceled = true ∨ t.id ∈ ids := by
  unfold cancelIn
  split_ifs with h <;> simp [h, Timer.cancel]

theorem cancelIn_lt (ids : List ℕ) (a b : Timer) :
    Timer.lt (cancelIn ids a) (cancelIn ids b) ↔ Timer.lt a b := by
  obtain ⟨ha, -, -, hea, -⟩ := cancelIn_frame ids a
  obtain ⟨hb, -, -, heb, -⟩ := cancelIn_frame ids b
  unfold Timer.lt
  rw [ha, hb, hea, heb]

namespace EventLoop

variable (s : EventLoop)

/-- A timer just made goes into the queue. -/
def take (timer : Timer) : EventLoop :=
  { s with
    gId := s.gId + 1
    timers := s.timers.insert timer
    log := .created timer :: s.log }

def runUntil (timercb : Bool) (expireTime : ℤ) : Except Fault EventLoop :=
  let timer := Timer.oneShot s.gId timercb expireTime
  if timer.isRepeat then .error .assertFailed else .ok (s.take timer)

def runAfter (timercb : Bool) (milliseconds now : ℤ) : Except Fault EventLoop :=
  s.runUntil timercb (addMilliseconds now milliseconds)

def runEvery (timercb : Bool) (milliseconds now : ℤ) : Except Fault EventLoop := do
  let expireTime := addMilliseconds now milliseconds
  let timer ← Timer.repeating s.gId timercb expireTime milliseconds
  if ¬ timer.isRepeat then .error .assertFailed else .ok (s.take timer)

def register : Registration → Except Fault EventLoop
  | .runAfter timercb milliseconds now => s.runAfter timercb milliseconds now
  | .runUntil timercb expireTime => s.runUntil timercb expireTime
  | .runEvery timercb milliseconds now => s.runEvery timercb milliseconds now

/-- `Timer::cancel`, wherever the timer is. -/
def cancel (id : ℕ) : EventLoop :=
  { s with
    timers := ⟨s.timers.timers.map (cancelIn [id]) (cancelIn_lt [id])⟩
    expirationTimers := s.expirationTimers.map (cancelIn [id])
    passed := s.passed.map (cancelIn [id]) }

/-- A timer made by one of the two constructors. -/
def make (timercb : Bool) (expTime : ℤ) : Option ℤ → Except Fault Timer
  | none => .ok (Timer.oneShot s.gId timercb expTime)
  | some interval => Timer.repeating s.gId timercb expTime interval

/-- `TimerQueue::addTimer` with a timer just made. -/
def handOver (timercb : Bool) (expTime : ℤ) (interval : Option ℤ) : Except Fault EventLoop := do
  let timer ← s.make timercb expTime interval
  let timers ← s.timers.addTimer (some timer)
  return { s with gId := s.gId + 1, timers := timers, log := .created timer :: s.log }

def act : Act → Except Fault EventLoop
  | .register r => s.register r
  | .cancel id => .ok (s.cancel id)
  | .addTimer timercb expTime interval => s.handOver timercb expTime interval
  | .elsewhere n => .ok { s with gId := s.gId + n }

def actAll : EventLoop → List Act → Except Fault EventLoop
  | s, [] => .ok s
  | s, a :: acts => do (← s.act a).actAll acts

/-- `timer_->run()`: the callback, if there is one. -/
def run (timer : Timer) (acts : List Act) : Except Fault EventLoop :=
  if timer.timercb then s.actAll acts else .ok s

/-- What follows the run of a timer: a repeating one is reset and handed back. -/
def settle (now : ℤ) : Except Fault EventLoop :=
  match s.expirationTimers with
  | [] => .ok s
  | timer :: rest =>
    if timer.isRepeat then do
      let timer := timer.reset now
      let timers ← s.timers.addTimer (some timer)
      return { s with
        timers := timers
        expirationTimers := rest
        log := .rearmed timer now :: s.log }
    else .ok { s with expirationTimers := rest, passed := s.passed ++ [timer] }

/-- The body of the loop over the batch, at its next slot. -/
def visit (curr : ℤ) (call : Call) : Except Fault EventLoop :=
  match s.expirationTimers with
  | [] => .ok s
  | timer :: _ => do
    let s ← { s with log := .ran timer curr :: s.log }.run timer call.acts
    s.settle call.now

/-- The loop over the batch: `n` slots from the `i`-th on. -/
def visitAll (curr : ℤ) (calls : ℕ → Call) : ℕ → ℕ → EventLoop → Except Fault EventLoop
  | 0, _, s => .ok s
  | n + 1, i, s => do visitAll curr calls n (i + 1) (← s.visit curr (calls i))

/-- The batch is taken off the queue, into slots that were empty. -/
def getExpiredTimes (curr : ℤ) : EventLoop :=
  { s with
    timers := (s.timers.getExpiredTimes curr).2
    expirationTimers := s.expirationTimers ++ (s.timers.getExpiredTimes curr).1 }

def execExpiredTimesTask (curr : ℤ) (calls : ℕ → Call) : Except Fault EventLoop := do
  let s := s.getExpiredTimes curr
  let s ← visitAll curr calls s.expirationTimers.length 0 s
  return { s with expirationTimers := [], passed := [] }

variable {s} {t : Timer} {rest : List Timer}

theorem visit_cons (hs : s.expirationTimers = t :: rest) (curr : ℤ) (call : Call) :
    s.visit curr call =
      { s with log := .ran t curr :: s.log }.run t call.acts >>= fun s' => s'.settle call.now := by
  obtain ⟨gId, timers, expirationTimers, passed, log⟩ := s
  subst hs
  rfl

theorem execExpiredTimesTask_eq {curr : ℤ} {calls : ℕ → Call} {s' : EventLoop}
    (h : visitAll curr calls (s.getExpiredTimes curr).expirationTimers.length 0
      (s.getExpiredTimes curr) = .ok s') :
    s.execExpiredTimesTask curr calls = .ok { s' with expirationTimers := [], passed := [] } := by
  unfold execExpiredTimesTask
  dsimp only
  rw [h]
  rfl

theorem settle_oneShot (hs : s.expirationTimers = t :: rest) (hr : t.isRepeat = false) (now : ℤ) :
    s.settle now = .ok { s with expirationTimers := rest, passed := s.passed ++ [t] } := by
  unfold settle
  rw [hs]
  exact if_neg (by rw [hr]; decide)

theorem settle_repeating (hs : s.expirationTimers = t :: rest) (hr : t.isRepeat = true) (now : ℤ)
    (hfind : s.timers.timers.find (t.reset now) = none) :
    s.settle now = .ok { s with
      timers := s.timers.insert (t.reset now)
      expirationTimers := rest
      log := .rearmed (t.reset now) now :: s.log } := by
  have hadd : s.timers.addTimer (some (t.reset now)) = .ok (s.timers.insert (t.reset now)) :=
    if_neg (by rw [hfind]; decide)
  unfold settle
  rw [hs]
  refine (if_pos hr).trans ?_
  dsimp only
  rw [hadd]
  rfl

end EventLoop

/-- One step of a run: something the program does between two iterations, or a batch. -/
inductive Op where
  | act (a : Act)
  | exec (curr : ℤ) (calls : ℕ → Call)

def step (s : EventLoop) : Op → Except Fault (EventLoop × Unit)
  | .act a => do return (← s.act a, ())
  | .exec curr calls => do return (← s.execExpiredTimesTask curr calls, ())

theorem step_act {s s' : EventLoop} {a : Act} (h : s.act a = .ok s') :
    step s (.act a) = .ok (s', ()) := by
  rw [step, h]
  rfl

theorem step_exec {s s' : EventLoop} {curr : ℤ} {calls : ℕ → Call}
    (h : s.execExpiredTimesTask curr calls = .ok s') :
    step s (.exec curr calls) = .ok (s', ()) := by
  rw [step, h]
  rfl

/-- A loop without timers, when `gId` ids have been taken by others. -/
def init (gId : ℕ) : EventLoop where
  gId := gId
  timers := ⟨.empty⟩
  expirationTimers := []
  passed := []
  log := []

end Chaining.Time.Batch
