import Chaining.Time.Cancel
import Chaining.Time.History

/-! # One batch is a snapshot of the queue

The batch is taken off the queue before any callback is called, and what the callbacks register goes
into the queue; so the loop over the batch meets the timers that were due at the reading of the
clock and no others, even where a callback registers a timer that is due already, or its own again.

What acts register depends only on the next id (`registers`), and so does what a whole batch does:
`visitAll_adds` gives the queue and the history behind the loop over any slots, and `exactSnapshot`
puts that together with what `getExpiredTimes` takes off. -/

namespace Chaining.Time.Snapshot

open Chaining.Base.Ordered Chaining.Outcome
open Chaining.Time.Defs Chaining.Time.Batch Chaining.Time.Cancel Chaining.Time.History
open Chaining.Time.Registering

/-! ### What a batch owes -/

/-- What is handed back behind the run of a timer. -/
def again (t : Timer) (call : Call) : List Timer := if t.isRepeat then [t.reset call.now] else []

/-- The timers of a batch that are handed back, from its `i`-th slot on. -/
def rearmed (calls : ℕ → Call) : ℕ → List Timer → List Timer
  | _, [] => []
  | i, t :: rest => rearmed calls (i + 1) rest ++ again t (calls i)

/-- The runs among the events. -/
def runsOf (log : List Event) : List (Timer × ℤ) :=
  log.filterMap fun
    | .ran t curr => some (t, curr)
    | _ => none

/-- **The batch is an exact snapshot**: it runs the timers that are due when it starts, each once, in
the order of expiration and id, and none that its callbacks register; and the queue it leaves holds
the timers that were not due, those handed back and those registered, and nothing else. A repeating timer
is handed back as its `reset` re-arms it, which is for the reading taken then and its interval unless it
was cancelled. -/
structure ExactSnapshot (s : EventLoop) (curr : ℤ) (calls : ℕ → Call) (s' : EventLoop) : Prop where
  runs : ∃ new, s'.log = new ++ s.log ∧ (runsOf new).reverse = (due s curr).map fun t => (t, curr)
  inOrder : (due s curr).Pairwise Timer.lt
  once : ((due s curr).map Timer.id).Nodup
  notNested : ∀ t ∈ newcomers calls s.gId 0 (due s curr), ∀ u ∈ due s curr, t.id ≠ u.id
  timers : s'.timers.timers.toList.Perm
    (newcomers calls s.gId 0 (due s curr) ++ rearmed calls 0 (due s curr) ++ later s curr)
  slots : s'.expirationTimers = [] ∧ s'.passed = []

variable {s s' : EventLoop}

/-! ### Acts -/

/-- Timers came into the queue, and nothing left it; timers were run. -/
structure Adds (new : List Timer) (runs : List (Timer × ℤ)) (s s' : EventLoop) : Prop where
  timers : s'.timers.timers.toList.Perm (new ++ s.timers.timers.toList)
  log : ∃ events, s'.log = events ++ s.log ∧ runsOf events = runs

theorem Adds.refl (s : EventLoop) : Adds [] [] s s := ⟨.refl _, [], rfl, rfl⟩

theorem Adds.trans {s'' : EventLoop} {a b : List Timer} {r q : List (Timer × ℤ)} (h : Adds a r s s')
    (h' : Adds b q s' s'') : Adds (b ++ a) (q ++ r) s s'' := by
  obtain ⟨es, hl, hr⟩ := h.log
  obtain ⟨es', hl', hr'⟩ := h'.log
  refine ⟨?_, es' ++ es, by rw [hl', hl, List.append_assoc], ?_⟩
  · rw [List.append_assoc]
    exact h'.timers.trans (h.timers.append_left b)
  · rw [← hr, ← hr']
    exact List.filterMap_append

/-- Registrations run nothing. -/
theorem runsOf_map_created : ∀ timers : List Timer, runsOf (timers.map .created) = []
  | [] => rfl
  | _ :: timers => runsOf_map_created timers

/-- What acts register is added. -/
theorem adds_of_grows {acts : List Act} (h : Grows acts s s') : Adds (registers s.gId acts) [] s s' :=
  ⟨h.timers, _, h.log, runsOf_map_created _⟩

theorem valid_of_registers {acts : List Act} (h : ∀ a ∈ acts, Act.Registers a) :
    ∀ a ∈ acts, Act.Valid a := by
  intro a ha
  have hr := h a ha
  cases a with
  | register r => cases r <;> exact hr
  | elsewhere => trivial
  | cancel => exact hr.elim
  | addTimer => exact hr.elim

/-! ### The loop over the batch -/

variable {t : Timer} {rest : List Timer}

/-- The slot of a timer that has been run is passed. -/
theorem settle_adds (h : Distinct s) (hs : s.expirationTimers = t :: rest) (call : Call) :
    ∃ s', s.settle call.now = .ok s' ∧ s'.gId = s.gId ∧ s'.expirationTimers = rest ∧ Distinct s' ∧
      Adds (again t call) [] s s' := by
  obtain ⟨s', he, hs', hp⟩ := settle_progress h hs call.now
  refine ⟨s', he, ?_⟩
  unfold again
  split_ifs with hr
  · rw [EventLoop.settle_repeating hs hr call.now (find_reset_eq_none h hs call.now)] at he
    cases he
    exact ⟨rfl, rfl, hp.distinct, s.timers.timers.perm_insert (t.reset call.now),
      [.rearmed (t.reset call.now) call.now], rfl, rfl⟩
  · rw [EventLoop.settle_oneShot hs (by simpa using hr)] at he
    cases he
    exact ⟨rfl, rfl, hp.distinct, .refl _, [], rfl, rfl⟩

/-- **One slot.** Its timer is run, the callback's registrations go into the queue, and so does the
timer itself if it is to be repeated. -/
theorem visit_adds (h : Distinct s) (hs : s.expirationTimers = t :: rest) (curr : ℤ) {call : Call}
    (hcall : ∀ a ∈ call.acts, Act.Registers a) :
    ∃ s', s.visit curr call = .ok s' ∧ s'.gId = gIdAfter s.gId (called t call) ∧
      s'.expirationTimers = rest ∧ Distinct s' ∧
      Adds (again t call ++ registers s.gId (called t call)) [(t, curr)] s s' := by
  have hran : Adds [] [(t, curr)] s { s with log := .ran t curr :: s.log } :=
    ⟨.refl _, [.ran t curr], rfl, rfl⟩
  obtain ⟨s₁, hrun, hg⟩ := run_grows { s with log := .ran t curr :: s.log } t hcall
  obtain ⟨s₁', hrun', he⟩ := run_effect (s := { s with log := .ran t curr :: s.log })
    ⟨h.nodup, h.lt⟩ t (valid_of_registers hcall)
  cases hrun.symm.trans hrun'
  obtain ⟨s₂, hset, hgId, hs₂, hd, hadds⟩ := settle_adds he.distinct (hg.slots.trans hs) call
  refine ⟨s₂, ?_, hgId.trans hg.gId, hs₂, hd, ?_⟩
  · rw [EventLoop.visit_cons hs, hrun, ok_bind, hset]
  · have hall := (hran.trans (adds_of_grows hg)).trans hadds
    rwa [List.append_nil] at hall

/-- **The loop over the batch**, by induction over its slots: it ends, having run the timers of the
slots and no others. -/
theorem visitAll_adds (curr : ℤ) {calls : ℕ → Call}
    (hcalls : ∀ i, ∀ a ∈ (calls i).acts, Act.Registers a) :
    ∀ (todo : List Timer) (i : ℕ) {s : EventLoop}, Distinct s → s.expirationTimers = todo →
      ∃ s' new, EventLoop.visitAll curr calls todo.length i s = .ok s' ∧
        new.Perm (newcomers calls s.gId i todo ++ rearmed calls i todo) ∧
        Adds new (todo.map fun t => (t, curr)).reverse s s'
  | [], _, s, _, _ => ⟨s, [], rfl, .refl _, .refl s⟩
  | t :: rest, i, s, h, hs => by
    obtain ⟨s₁, he, hgId, hs₁, hd, hadds⟩ := visit_adds h hs curr (hcalls i)
    obtain ⟨s₂, new, he', hnew, hadds'⟩ := visitAll_adds curr hcalls rest (i + 1) hd hs₁
    rw [hgId] at hnew
    refine ⟨s₂, new ++ (again t (calls i) ++ registers s.gId (called t (calls i))), ?_, ?_, ?_⟩
    · rw [List.length_cons, EventLoop.visitAll, he, ok_bind, he']
    · refine (hnew.append_right _).trans (List.perm_iff_count.mpr fun u => ?_)
      simp only [newcomers, rearmed, List.count_append]
      omega
    · rw [List.map_cons, List.reverse_cons]
      exact hadds.trans hadds'

/-! ### Ids -/

theorem le_gIdAfter : ∀ (gId : ℕ) (acts : List Act), gId ≤ gIdAfter gId acts
  | _, [] => le_rfl
  | gId, .register _ :: acts => (Nat.le_succ gId).trans (le_gIdAfter (gId + 1) acts)
  | gId, .elsewhere n :: acts => (Nat.le_add_right gId n).trans (le_gIdAfter (gId + n) acts)
  | gId, .cancel _ :: acts => le_gIdAfter gId acts
  | gId, .addTimer .. :: acts => le_gIdAfter gId acts

theorem registered_id (id : ℕ) (r : Registration) : (registered id r).id = id := by
  cases r <;> rfl

theorem le_id_of_mem_registers : ∀ {gId : ℕ} {acts : List Act} {t : Timer},
    t ∈ registers gId acts → gId ≤ t.id
  | _, [], _, h => absurd h List.not_mem_nil
  | gId, .register r :: acts, t, h => by
    rcases List.mem_append.mp h with h | h
    · exact (Nat.le_succ gId).trans (le_id_of_mem_registers h)
    · rw [List.mem_singleton.mp h, registered_id]
  | gId, .elsewhere n :: acts, t, h => (Nat.le_add_right gId n).trans (le_id_of_mem_registers h)
  | _, .cancel _ :: acts, _, h => @le_id_of_mem_registers _ acts _ h
  | _, .addTimer .. :: acts, _, h => @le_id_of_mem_registers _ acts _ h

/-- The timers that callbacks register have ids of their own. -/
theorem le_id_of_mem_newcomers {calls : ℕ → Call} : ∀ {gId i : ℕ} {todo : List Timer} {t : Timer},
    t ∈ newcomers calls gId i todo → gId ≤ t.id
  | _, _, [], _, h => absurd h List.not_mem_nil
  | gId, i, u :: rest, t, h => by
    rcases List.mem_append.mp h with h | h
    · exact (le_gIdAfter gId _).trans (le_id_of_mem_newcomers h)
    · exact le_id_of_mem_registers h

/-! ### The batch -/

theorem pairwise_due (h : Distinct s) (curr : ℤ) : (due s curr).Pairwise Timer.lt := by
  have hnd : (s.timers.timers.toList.map Timer.id).Nodup := (List.nodup_append.mp h.nodup).1
  have hlt : s.timers.timers.toList.Pairwise Timer.lt :=
    (s.timers.timers.ordered.and (List.pairwise_map.mp hnd)).imp fun ⟨hlt, hid⟩ =>
      Timer.lt_of_not_lt hlt hid
  exact hlt.sublist List.filter_sublist

/-- **One timer batch is an exact snapshot.** Between two iterations, whatever is in the queue, what
the clock reads and what the callbacks register, the batch ends, and it is a snapshot. -/
theorem exactSnapshot (h : WellFormed s) (curr : ℤ) {calls : ℕ → Call}
    (hcalls : ∀ i, ∀ a ∈ (calls i).acts, Act.Registers a) :
    ∃ s', s.execExpiredTimesTask curr calls = .ok s' ∧ ExactSnapshot s curr calls s' := by
  have hlater := (getExpiredTimes_eq s curr).2
  have hbatch := expirationTimers_eq h.slots.1 curr
  have hnd : (s.timers.timers.toList.map Timer.id).Nodup :=
    (List.nodup_append.mp h.distinct.nodup).1
  obtain ⟨s', new, he, hnew, hadds⟩ :=
    visitAll_adds curr hcalls (due s curr) 0 (distinct_getExpiredTimes h curr) hbatch
  have htimers : s'.timers.timers.toList.Perm (new ++ later s curr) := hlater ▸ hadds.timers
  obtain ⟨events, hlog, hruns⟩ := hadds.log
  refine ⟨_, EventLoop.execExpiredTimesTask_eq (hbatch ▸ he), ?_⟩
  constructor
  case runs => exact ⟨events, hlog, by rw [hruns, List.reverse_reverse]⟩
  case inOrder => exact pairwise_due h.distinct curr
  case once => exact hnd.sublist (List.filter_sublist.map Timer.id)
  case notNested =>
    intro t ht u hu
    have hle := le_id_of_mem_newcomers ht
    have hmem : u.id ∈ ids s := List.mem_map_of_mem (List.mem_of_mem_filter hu)
    have hlt := h.distinct.lt u.id (List.mem_append_left _ hmem)
    omega
  case timers => exact htimers.trans (hnew.append_right _)
  case slots => exact ⟨rfl, rfl⟩

/-- A callback that registers a timer that is due already: it is run, and the new one is not. -/
theorem exactSnapshot_nested :
    ∃ s', (((init 0).take (.oneShot 0 true 10)).take (.oneShot 1 true 20)).execExpiredTimesTask 15
        (fun _ => ⟨[.register (.runUntil true 5)], 15⟩) = .ok s' ∧
      ExactSnapshot (((init 0).take (.oneShot 0 true 10)).take (.oneShot 1 true 20)) 15
        (fun _ => ⟨[.register (.runUntil true 5)], 15⟩) s' := by
  have h0 := (wellFormed_init 0).distinct
  have h1 := effect_insert h0 (t := .oneShot 0 true 10) rfl
  have h2 := effect_insert h1.distinct (t := .oneShot 1 true 20) rfl
  exact exactSnapshot ⟨⟨rfl, rfl⟩, h2.distinct⟩ 15 (by simp [Act.Registers])

end Chaining.Time.Snapshot
