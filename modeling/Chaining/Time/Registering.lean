import Chaining.Base.Runs
import Chaining.Time.Batch

/-! # What registrations make

Acts that only register timers depend on the loop through the next id alone: `registers` tells the
timers they make, and `newcomers` those that the callbacks of a batch make, which is the batch of the
timers that are due (`getExpiredTimes_eq`). `step_enters` says that these are the timers which a step
enters into the history, each once: what is shown of the timers of the history is shown of the
registrations. -/

namespace Chaining.Time.Registering

open Chaining.Base.Ordered Chaining.Base.Runs Chaining.Outcome
open Chaining.Time.Defs Chaining.Time.Batch

/-- A registration, of a positive interval if it is to be repeated, or something in another loop. -/
def Act.Registers : Act → Prop
  | .register (.runEvery _ ms _) => 0 < ms
  | .register _ | .elsewhere _ => True
  | .cancel _ | .addTimer .. => False

/-- Timers are only registered, by the callbacks too. -/
def Op.Registers : Op → Prop
  | .act a => Act.Registers a
  | .exec _ calls => ∀ i, ∀ a ∈ (calls i).acts, Act.Registers a

/-- The timer that a registration makes, with the id it takes. -/
def registered (id : ℕ) : Registration → Timer
  | .runAfter timercb milliseconds now => .oneShot id timercb (addMilliseconds now milliseconds)
  | .runUntil timercb expireTime => .oneShot id timercb expireTime
  | .runEvery timercb milliseconds now => {
      id := id
      timercb := timercb
      isRepeat := true
      expTime := addMilliseconds now milliseconds
      interval := milliseconds
      canceled := false }

/-- The timers that acts register, the latest first, when `gId` is the next id. -/
def registers : ℕ → List Act → List Timer
  | _, [] => []
  | gId, .register r :: acts => registers (gId + 1) acts ++ [registered gId r]
  | gId, .elsewhere n :: acts => registers (gId + n) acts
  | gId, _ :: acts => registers gId acts

/-- The next id behind the acts. -/
def gIdAfter : ℕ → List Act → ℕ
  | gId, [] => gId
  | gId, .register _ :: acts => gIdAfter (gId + 1) acts
  | gId, .elsewhere n :: acts => gIdAfter (gId + n) acts
  | gId, _ :: acts => gIdAfter gId acts

/-- What the run of a timer does: nothing without a callback. -/
def called (t : Timer) (call : Call) : List Act := if t.timercb then call.acts else []

/-- The timers that the callbacks of a batch register, from its `i`-th slot on. -/
def newcomers (calls : ℕ → Call) : ℕ → ℕ → List Timer → List Timer
  | _, _, [] => []
  | gId, i, t :: rest =>
    newcomers calls (gIdAfter gId (called t (calls i))) (i + 1) rest ++
      registers gId (called t (calls i))

/-- The timers that are due at the reading. -/
def due (s : EventLoop) (curr : ℤ) : List Timer :=
  s.timers.timers.toList.filter fun t => t.expTime ≤ curr

/-- The timers that are not. -/
def later (s : EventLoop) (curr : ℤ) : List Timer :=
  s.timers.timers.toList.filter fun t => curr < t.expTime

/-- The timers that a step makes, the latest first. -/
def registrations (s : EventLoop) : Op → List Timer
  | .act a => registers s.gId [a]
  | .exec curr calls => newcomers calls s.gId 0 (due s curr)

/-- The timers that were made, the latest first. -/
def createdOf (log : List Event) : List Timer :=
  log.filterMap fun
    | .created t => some t
    | _ => none

/-- **What a step registers is entered** into the history, and nothing else is. -/
def Enters (s : EventLoop) (op : Op) : Prop :=
  ∀ s' o, step s op = .ok (s', o) → createdOf s'.log = registrations s op ++ createdOf s.log

variable {s s' : EventLoop}

theorem createdOf_append (log log' : List Event) :
    createdOf (log ++ log') = createdOf log ++ createdOf log' := List.filterMap_append

theorem createdOf_map_created (timers : List Timer) : createdOf (timers.map .created) = timers := by
  unfold createdOf
  rw [List.filterMap_map]
  exact List.filterMap_some

/-! ### Acts -/

/-- What acts do to the loop when they only register. -/
structure Grows (acts : List Act) (s s' : EventLoop) : Prop where
  gId : s'.gId = gIdAfter s.gId acts
  slots : s'.expirationTimers = s.expirationTimers
  timers : s'.timers.timers.toList.Perm (registers s.gId acts ++ s.timers.timers.toList)
  log : s'.log = (registers s.gId acts).map .created ++ s.log

theorem Grows.refl (s : EventLoop) : Grows [] s s := ⟨rfl, rfl, .refl _, rfl⟩

theorem register_eq (s : EventLoop) {r : Registration} (hr : Act.Registers (.register r)) :
    s.register r = .ok (s.take (registered s.gId r)) := by
  cases r with
  | runAfter => rfl
  | runUntil => rfl
  | runEvery timercb ms now =>
    have hms : 0 < ms := hr
    simp [EventLoop.register, EventLoop.runEvery, Timer.repeating, hms, registered]

theorem actAll_grows : ∀ (s : EventLoop) {acts : List Act}, (∀ a ∈ acts, Act.Registers a) →
    ∃ s', s.actAll acts = .ok s' ∧ Grows acts s s'
  | s, [], _ => ⟨s, rfl, .refl s⟩
  | s, .register r :: acts, h => by
    have hr := register_eq s (h _ List.mem_cons_self)
    obtain ⟨s', he, hg⟩ := actAll_grows (s.take (registered s.gId r))
      fun a ha => h a (List.mem_cons_of_mem _ ha)
    have htaken := s.timers.timers.perm_insert (registered s.gId r)
    refine ⟨s', ?_, hg.gId, hg.slots, ?_, ?_⟩
    · rw [EventLoop.actAll, EventLoop.act, hr, ok_bind, he]
    · rw [registers, List.append_assoc]
      exact hg.timers.trans (htaken.append_left _)
    · rw [hg.log, registers, List.map_append, List.append_assoc]
      rfl
  | s, .elsewhere n :: acts, h => by
    obtain ⟨s', he, hg⟩ := actAll_grows { s with gId := s.gId + n }
      fun a ha => h a (List.mem_cons_of_mem _ ha)
    refine ⟨s', ?_, hg.gId, hg.slots, hg.timers, hg.log⟩
    rw [EventLoop.actAll, EventLoop.act, ok_bind, he]
  | _, .cancel _ :: _, h => (h _ List.mem_cons_self).elim
  | _, .addTimer .. :: _, h => (h _ List.mem_cons_self).elim

theorem run_grows (s : EventLoop) (t : Timer) {call : Call} (h : ∀ a ∈ call.acts, Act.Registers a) :
    ∃ s', s.run t call.acts = .ok s' ∧ Grows (called t call) s s' := by
  unfold EventLoop.run called
  split_ifs
  · exact actAll_grows s h
  · exact ⟨s, rfl, .refl s⟩

/-! ### A batch -/

/-- **The extraction loop stops at the right place.** -/
theorem getExpiredTimes_eq (s : EventLoop) (curr : ℤ) :
    (s.timers.getExpiredTimes curr).1 = due s curr ∧
      (s.timers.getExpiredTimes curr).2.timers.toList = later s curr := by
  have happ := s.timers.getExpiredTimes_append curr
  have hdue : ∀ t ∈ (s.timers.getExpiredTimes curr).1, t.expTime ≤ curr :=
    fun t ht => TimerQueue.expTime_le_of_mem ht
  have hlater : ∀ t ∈ (s.timers.getExpiredTimes curr).2.timers.toList, curr < t.expTime :=
    fun t ht => TimerQueue.lt_expTime_of_mem ht
  unfold due later
  rw [← happ, List.filter_append, List.filter_append]
  constructor
  · rw [List.filter_eq_self.mpr fun t ht => decide_eq_true (hdue t ht),
      List.filter_eq_nil_iff.mpr fun t ht => by simpa using hlater t ht, List.append_nil]
  · rw [List.filter_eq_nil_iff.mpr fun t ht => by simpa using hdue t ht,
      List.filter_eq_self.mpr fun t ht => decide_eq_true (hlater t ht), List.nil_append]

/-- The batch is what is due. -/
theorem expirationTimers_eq (hs : s.expirationTimers = []) (curr : ℤ) :
    (s.getExpiredTimes curr).expirationTimers = due s curr := by
  unfold EventLoop.getExpiredTimes
  rw [hs, List.nil_append, (getExpiredTimes_eq s curr).1]

/-- What follows the run of a timer makes none. -/
theorem settle_enters {t : Timer} {rest : List Timer} (hs : s.expirationTimers = t :: rest) {now : ℤ}
    (he : s.settle now = .ok s') :
    createdOf s'.log = createdOf s.log ∧ s'.gId = s.gId ∧ s'.expirationTimers = rest := by
  unfold EventLoop.settle at he
  rw [hs] at he
  dsimp only at he
  split_ifs at he
  · obtain ⟨q, -, hq⟩ := bind_eq_ok.mp he
    cases hq
    exact ⟨rfl, rfl, rfl⟩
  · cases he
    exact ⟨rfl, rfl, rfl⟩

/-- **One slot** enters what its callback registers. -/
theorem visit_enters {t : Timer} {rest : List Timer} (hs : s.expirationTimers = t :: rest) {curr : ℤ}
    {call : Call} (hcall : ∀ a ∈ call.acts, Act.Registers a) (he : s.visit curr call = .ok s') :
    createdOf s'.log = registers s.gId (called t call) ++ createdOf s.log ∧
      s'.gId = gIdAfter s.gId (called t call) ∧ s'.expirationTimers = rest := by
  obtain ⟨s₁, hrun, hg⟩ := run_grows { s with log := .ran t curr :: s.log } t hcall
  rw [EventLoop.visit_cons hs, hrun, ok_bind] at he
  obtain ⟨hcreated, hgId, hrest⟩ := settle_enters (hg.slots.trans hs) he
  refine ⟨?_, hgId.trans hg.gId, hrest⟩
  rw [hcreated, hg.log, createdOf_append, createdOf_map_created]
  rfl

/-- **The loop over the batch**, by induction over its slots. -/
theorem visitAll_enters {curr : ℤ} {calls : ℕ → Call}
    (hcalls : ∀ i, ∀ a ∈ (calls i).acts, Act.Registers a) :
    ∀ (todo : List Timer) (i : ℕ) {s s' : EventLoop}, s.expirationTimers = todo →
      EventLoop.visitAll curr calls todo.length i s = .ok s' →
        createdOf s'.log = newcomers calls s.gId i todo ++ createdOf s.log
  | [], _, s, s', _, he => by
    cases he
    rfl
  | t :: rest, i, s, s', hs, he => by
    rw [List.length_cons, EventLoop.visitAll] at he
    obtain ⟨s₁, hvisit, he⟩ := bind_eq_ok.mp he
    obtain ⟨hcreated, hgId, hrest⟩ := visit_enters hs (hcalls i) hvisit
    rw [visitAll_enters hcalls rest (i + 1) hrest he, hcreated, hgId, ← List.append_assoc]
    rfl

/-- **One step** enters what it registers, between two iterations. -/
theorem step_enters (hs : s.expirationTimers = []) {op : Op} (hop : Op.Registers op) : Enters s op := by
  intro s' o he
  cases op with
  | act a =>
    obtain ⟨s₁, hact, hret⟩ := bind_eq_ok.mp he
    cases hret
    obtain ⟨s₂, hall, hg⟩ := @actAll_grows s [a] fun b hb => List.mem_singleton.mp hb ▸ hop
    rw [EventLoop.actAll, hact] at hall
    cases hall
    rw [hg.log, createdOf_append, createdOf_map_created]
    rfl
  | exec curr calls =>
    obtain ⟨s₁, hexec, hret⟩ := bind_eq_ok.mp he
    cases hret
    obtain ⟨s₂, hvisit, hexec⟩ := bind_eq_ok.mp hexec
    cases hexec
    have hbatch := expirationTimers_eq hs curr
    rw [hbatch] at hvisit
    have hcreated := visitAll_enters hop (due s curr) 0 hbatch hvisit
    exact hcreated

end Chaining.Time.Registering
