import Chaining.Time.Registering
import Chaining.Time.Transfer
import Mathlib.Logic.Relation

/-! # Timers are neither lost, doubled nor early

A loop between two slots of a batch is read as a ledger (`ledger`): the queue and the slots not yet
passed own the timers. Registrations and the body of the loop over the batch are transfers of that
ledger (`Books`), as long as nothing is cancelled; so its invariant holds throughout, `addTimer`'s
search finds nothing, and no `assert` fails. `timers_conserved` is what follows for whole runs. -/

namespace Chaining.Time.History

open Relation (ReflTransGen)
open Chaining.Base.Ordered Chaining.Base.Runs Chaining.Outcome
open Chaining.Time.Defs Chaining.Time.Batch Chaining.Time.Registering Chaining.Time.Transfer

/-- The loop as a ledger, when the slots `todo` have not been passed and `running` is being run. -/
def ledger (s : EventLoop) (todo : List Timer) (running : Option Timer) : Ledger where
  gId := s.gId
  owned := (s.timers.timers.toList : Multiset Timer) + todo
  running := running
  log := s.log

/-- What was done left the batch alone and is a sequence of transfers, wherever the batch stands. -/
structure Books (s s' : EventLoop) : Prop where
  expirationTimers : s'.expirationTimers = s.expirationTimers
  passed : s'.passed = s.passed
  steps : ∀ todo running,
    ReflTransGen Ledger.Step (ledger s todo running) (ledger s' todo running)

/-- **What the history of a loop shows**, between two iterations. -/
structure Conserved (s : EventLoop) : Prop where
  slots : s.expirationTimers = [] ∧ s.passed = []
  ordered : s.timers.timers.toList.Pairwise Timer.lt
  distinct : (s.timers.timers.toList.map Timer.id).Nodup
  made : ∀ t ∈ s.timers.timers.toList, ∃ t₀, .created t₀ ∈ s.log ∧ Descends t₀ t
  oneShot : ∀ t, .created t ∈ s.log → t.isRepeat = false →
    runs t.id s.log = 1 ∧ (s.timers.timers.toList.map Timer.id).count t.id = 0 ∨
      runs t.id s.log = 0 ∧ (s.timers.timers.toList.map Timer.id).count t.id = 1
  repeating : ∀ t, .created t ∈ s.log → t.isRepeat = true →
    (s.timers.timers.toList.map Timer.id).count t.id = 1
  notEarly : ∀ t curr, .ran t curr ∈ s.log →
    t.expTime ≤ curr ∧ ∃ t₀, .created t₀ ∈ s.log ∧ Descends t₀ t
  spaced : ∀ post t' curr' mid t curr pre,
    s.log = post ++ .ran t' curr' :: mid ++ .ran t curr :: pre → t'.id = t.id →
      (∀ u d, .ran u d ∈ mid → u.id ≠ t.id) →
        ∃ now, resets t.id mid = [now] ∧ addMilliseconds now t'.interval ≤ curr' ∧
          (Fits64 (now + t'.interval * 1000000) → now + t'.interval * 1000000 ≤ curr')

variable {s s' : EventLoop}

theorem Steps.inv {L L' : Ledger} (h : ReflTransGen Ledger.Step L L') (hI : L.Inv) : L'.Inv := by
  induction h with
  | refl => exact hI
  | tail _ hstep ih => exact hstep.inv ih

theorem Books.refl (s : EventLoop) : Books s s := ⟨rfl, rfl, fun _ _ => .refl⟩

theorem Books.trans {s'' : EventLoop} (h : Books s s') (h' : Books s' s'') : Books s s'' :=
  ⟨h'.expirationTimers.trans h.expirationTimers, h'.passed.trans h.passed, fun todo running =>
    (h.steps todo running).trans (h'.steps todo running)⟩

theorem coe_insert (q : TimerQueue) (t : Timer) :
    ((q.insert t).timers.toList : Multiset Timer) = t ::ₘ (q.timers.toList : Multiset Timer) :=
  Multiset.coe_eq_coe.mpr (q.timers.perm_insert t)

/-- A timer just made is entered. -/
theorem take_books (s : EventLoop) {t : Timer} (hid : t.id = s.gId) (hc : t.canceled = false) :
    Books s (s.take t) := by
  refine ⟨rfl, rfl, fun todo running => .single ?_⟩
  have howned : ((s.timers.insert t).timers.toList : Multiset Timer) + todo =
      t ::ₘ ((s.timers.timers.toList : Multiset Timer) + todo) := by
    rw [coe_insert, Multiset.cons_add]
  unfold ledger EventLoop.take
  dsimp only
  rw [howned]
  exact .create (ledger s todo running) t hid hc

/-- **One registration** succeeds. -/
theorem act_books (s : EventLoop) {a : Act} (ha : Act.Registers a) :
    ∃ s', s.act a = .ok s' ∧ Books s s' := by
  cases a with
  | register r =>
    cases r with
    | runAfter timercb ms now => exact ⟨_, rfl, take_books s rfl rfl⟩
    | runUntil timercb expireTime => exact ⟨_, rfl, take_books s rfl rfl⟩
    | runEvery timercb ms now =>
      have hms : 0 < ms := ha
      refine ⟨_, ?_, take_books s (t := ⟨s.gId, timercb, true, addMilliseconds now ms, ms, false⟩) rfl rfl⟩
      simp [EventLoop.act, EventLoop.register, EventLoop.runEvery, Timer.repeating, hms]
  | elsewhere n => exact ⟨_, rfl, rfl, rfl, fun todo running => .single (.elsewhere _ n)⟩
  | cancel => exact False.elim ha
  | addTimer => exact False.elim ha

theorem actAll_books : ∀ (s : EventLoop) {acts : List Act}, (∀ a ∈ acts, Act.Registers a) →
    ∃ s', s.actAll acts = .ok s' ∧ Books s s'
  | s, [], _ => ⟨s, rfl, .refl s⟩
  | s, a :: acts, h => by
    obtain ⟨s₁, he, h1⟩ := act_books s (h a List.mem_cons_self)
    obtain ⟨s₂, he', h2⟩ := actAll_books s₁ fun b hb => h b (List.mem_cons_of_mem a hb)
    exact ⟨s₂, by rw [EventLoop.actAll, he, ok_bind, he'], h1.trans h2⟩

theorem run_books (s : EventLoop) (t : Timer) {acts : List Act} (h : ∀ a ∈ acts, Act.Registers a) :
    ∃ s', s.run t acts = .ok s' ∧ Books s s' := by
  unfold EventLoop.run
  split_ifs
  · exact actAll_books s h
  · exact ⟨s, rfl, .refl s⟩

/-- The search of `addTimer` finds nothing while the timer is being run. -/
theorem find_reset_of_running {t : Timer} {todo : List Timer}
    (hI : (ledger s todo (some t)).Inv) (now : ℤ) :
    s.timers.timers.find (t.reset now) = none := by
  rw [OrderedList.find_eq_none]
  intro u hu
  have hne := hI.running_id_ne rfl (Multiset.mem_add.mpr (Or.inl hu))
  obtain ⟨hid, -⟩ := t.reset_frame now
  unfold Timer.lt
  omega

/-- **One slot of the batch** is passed by transfers. -/
theorem visit_books {t : Timer} {rest : List Timer} {curr : ℤ} {call : Call}
    (hs : s.expirationTimers = t :: rest) (hI : (ledger s (t :: rest) none).Inv)
    (hdue : t.expTime ≤ curr) (hcall : ∀ a ∈ call.acts, Act.Registers a) :
    ∃ s', s.visit curr call = .ok s' ∧ s'.expirationTimers = rest ∧
      ReflTransGen Ledger.Step (ledger s (t :: rest) none) (ledger s' rest none) := by
  -- the timer is run,
  have hstart : Ledger.Step (ledger s (t :: rest) none)
      (ledger { s with log := .ran t curr :: s.log } rest (some t)) := by
    refine .start _ t _ curr rfl ?_ hdue
    show (s.timers.timers.toList : Multiset Timer) + ((t :: rest : List Timer) : Multiset Timer) = _
    rw [← Multiset.cons_coe, Multiset.add_cons]
  obtain ⟨s₂, hrun, hbooks⟩ := run_books { s with log := .ran t curr :: s.log } t hcall
  have hs₂ : s₂.expirationTimers = t :: rest := hbooks.expirationTimers.trans hs
  have hsteps := ReflTransGen.head hstart (hbooks.steps rest (some t))
  have hI₂ := Steps.inv hsteps hI
  -- and then it is either done with or goes back into the queue.
  rw [EventLoop.visit_cons hs, hrun, ok_bind]
  by_cases hr : t.isRepeat = true
  · rw [EventLoop.settle_repeating hs₂ hr _ (find_reset_of_running hI₂ call.now)]
    refine ⟨_, rfl, rfl, hsteps.tail ?_⟩
    have howned : ((s₂.timers.insert (t.reset call.now)).timers.toList : Multiset Timer) + rest =
        t.reset call.now ::ₘ ((s₂.timers.timers.toList : Multiset Timer) + rest) := by
      rw [coe_insert, Multiset.cons_add]
    unfold ledger
    dsimp only
    rw [howned]
    exact .rearm (ledger s₂ rest (some t)) t call.now rfl hr
  · have hr : t.isRepeat = false := by simpa using hr
    rw [EventLoop.settle_oneShot hs₂ hr]
    exact ⟨_, rfl, rfl, hsteps.tail (.finish (ledger s₂ rest (some t)) t rfl hr)⟩

/-- **The loop over the batch**, by induction over its slots. -/
theorem visitAll_books {curr : ℤ} {calls : ℕ → Call} (hcalls : ∀ i, ∀ a ∈ (calls i).acts, Act.Registers a) :
    ∀ (todo : List Timer) (i : ℕ) {s : EventLoop}, s.expirationTimers = todo →
      (ledger s todo none).Inv → (∀ t ∈ todo, t.expTime ≤ curr) →
      ∃ s', EventLoop.visitAll curr calls todo.length i s = .ok s' ∧ s'.expirationTimers = [] ∧
        ReflTransGen Ledger.Step (ledger s todo none) (ledger s' [] none)
  | [], _, s, hs, _, _ => ⟨s, rfl, hs, .refl⟩
  | t :: rest, i, s, hs, hI, hdue => by
    obtain ⟨s₁, he, hs₁, h1⟩ := visit_books hs hI (hdue t List.mem_cons_self) (hcalls i)
    obtain ⟨s₂, he', hs₂, h2⟩ := visitAll_books hcalls rest (i + 1) hs₁ (Steps.inv h1 hI)
      fun u hu => hdue u (List.mem_cons_of_mem t hu)
    refine ⟨s₂, ?_, hs₂, h1.trans h2⟩
    rw [List.length_cons, EventLoop.visitAll, he, ok_bind, he']

/-- Taking a batch moves timers from the queue to the slots. -/
theorem ledger_getExpiredTimes (hs : s.expirationTimers = []) (curr : ℤ) :
    ledger (s.getExpiredTimes curr) (s.getExpiredTimes curr).expirationTimers none =
      ledger s [] none := by
  have happ := s.timers.getExpiredTimes_append curr
  unfold ledger EventLoop.getExpiredTimes
  simp only [hs, List.nil_append, Multiset.coe_nil, Multiset.add_zero]
  rw [Multiset.add_comm, Multiset.coe_add, happ]

/-- Between two iterations the batch is empty. -/
def Between (s : EventLoop) : Prop := s.expirationTimers = [] ∧ s.passed = []

theorem execExpiredTimesTask_books {curr : ℤ} {calls : ℕ → Call} (hs : Between s)
    (hI : (ledger s [] none).Inv) (hcalls : ∀ i, ∀ a ∈ (calls i).acts, Act.Registers a) :
    ∃ s', s.execExpiredTimesTask curr calls = .ok s' ∧ Between s' ∧
      ReflTransGen Ledger.Step (ledger s [] none) (ledger s' [] none) := by
  have hledger := ledger_getExpiredTimes hs.1 curr
  have hdue : ∀ t ∈ (s.getExpiredTimes curr).expirationTimers, t.expTime ≤ curr := fun t ht => by
    change t ∈ s.expirationTimers ++ _ at ht
    rw [hs.1, List.nil_append] at ht
    exact TimerQueue.expTime_le_of_mem ht
  obtain ⟨s', he, -, h⟩ := visitAll_books hcalls _ 0 rfl (hledger ▸ hI) hdue
  rw [hledger] at h
  exact ⟨_, EventLoop.execExpiredTimesTask_eq he, ⟨rfl, rfl⟩, h⟩

/-- **One step** is a sequence of transfers. -/
theorem step_books (hs : Between s) (hI : (ledger s [] none).Inv) {op : Op}
    (hop : Op.Registers op) : ∃ s', step s op = .ok (s', ()) ∧ Between s' ∧
      ReflTransGen Ledger.Step (ledger s [] none) (ledger s' [] none) := by
  cases op with
  | act a =>
    obtain ⟨s', he, hb⟩ := act_books s hop
    refine ⟨s', step_act he, ⟨?_, ?_⟩, hb.steps [] none⟩
    · exact hb.expirationTimers.trans hs.1
    · exact hb.passed.trans hs.2
  | exec curr calls =>
    obtain ⟨s', he, hb, h⟩ := execExpiredTimesTask_books hs hI hop
    exact ⟨s', step_exec he, hb, h⟩

theorem inv_init (gId : ℕ) : (ledger (init gId) [] none).Inv where
  fresh := by simp [ledger, init]
  once := by simp [ledger, init]
  live := by simp [ledger, init, Ledger.held, OrderedList.empty]
  origin := by simp [ledger, init, Ledger.held, OrderedList.empty]
  nodup := by simp [ledger, init, Ledger.held, OrderedList.empty]
  armed := by simp [ledger, init, OrderedList.empty]
  started := by simp [ledger]
  ranOrigin := by simp [ledger, init]
  early := by simp [ledger, init]
  spaced := by simp [ledger, init, Spaced]
  oneShot := by simp [ledger, init]
  repeating := by simp [ledger, init]

/-- **What the ledger says of the loop** between two iterations. -/
theorem conserved_of_inv (hs : Between s) (hI : (ledger s [] none).Inv) : Conserved s := by
  have howned : (ledger s [] none).owned = (s.timers.timers.toList : Multiset Timer) :=
    Multiset.add_zero _
  have hheld : (ledger s [] none).held = (s.timers.timers.toList : Multiset Timer) :=
    (Ledger.held_of_none rfl).trans howned
  have htimes : ∀ id, Ledger.times id (s.timers.timers.toList : Multiset Timer) =
      (s.timers.timers.toList.map Timer.id).count id := fun id => by
    unfold Ledger.times
    rw [Multiset.map_coe, Multiset.coe_count]
  have hnodup : (s.timers.timers.toList.map Timer.id).Nodup := by
    have hn := hI.nodup
    rw [hheld, Multiset.map_coe, Multiset.coe_nodup] at hn
    exact hn
  constructor
  case slots => exact hs
  case ordered =>
    refine (s.timers.timers.ordered.and (List.pairwise_map.mp hnodup)).imp ?_
    exact fun ⟨hlt, hid⟩ => Timer.lt_of_not_lt hlt hid
  case distinct => exact hnodup
  case made => exact fun t ht => hI.origin t (hheld ▸ ht)
  case oneShot =>
    intro t ht hr
    have hone := hI.oneShot t ht hr
    rw [howned, htimes] at hone
    change runs t.id s.log + _ = 1 at hone
    omega
  case repeating =>
    intro t ht hr
    have hrep := hI.repeating t ht hr
    rw [hheld, htimes] at hrep
    exact hrep
  case notEarly => exact fun t curr ht => ⟨hI.early t curr ht, hI.ranOrigin t curr ht⟩
  case spaced =>
    intro post t' curr' mid t curr pre hlog hid hmid
    obtain ⟨now, hnow, hle⟩ := hI.spaced post t' curr' mid t curr pre hlog hid hmid
    refine ⟨now, hnow, hle, fun hfits => ?_⟩
    rw [addMilliseconds_eq, wrap64_eq hfits] at hle
    exact hle

/-- **Timers are neither lost, doubled nor early.** Every run of registrations and batches succeeds,
whatever the readings of the clock and wherever the registrations are made, and what it reaches is
`Conserved`. The timers of its history are those that were registered, each entered once. -/
theorem timers_conserved (gId : ℕ) {ops : List Op} (h : ∀ op ∈ ops, Op.Registers op) :
    (∃ os s, Run step (init gId) ops os s ∧ Conserved s) ∧ Along step Enters (init gId) ops := by
  have hstep : ∀ s op, (Between s ∧ (ledger s [] none).Inv) → Op.Registers op →
      (∃ s' o, step s op = .ok (s', o) ∧ Between s' ∧ (ledger s' [] none).Inv) ∧ Enters s op := by
    rintro s op ⟨hs, hI⟩ hop
    obtain ⟨s', he, hs', h⟩ := step_books hs hI hop
    exact ⟨⟨s', (), he, hs', Steps.inv h hI⟩, step_enters hs.1 hop⟩
  obtain ⟨⟨os, s, hrun, hs, hI⟩, henters⟩ :=
    exists_run_along hstep ⟨⟨rfl, rfl⟩, inv_init gId⟩ (along_of_forall _ h)
  exact ⟨⟨os, s, hrun, conserved_of_inv hs hI⟩, henters⟩

/-- A repeating timer whose callback registers a one-shot one. -/
def nested : List Op :=
  [.act (.register (.runEvery true 10 0)),
    .exec 10000000 fun _ => ⟨[.register (.runAfter true 5 10000000)], 11000000⟩]

/-- Both are entered. -/
theorem timers_conserved_nested :
    (∀ op ∈ nested, Op.Registers op) ∧
    (∃ s, Run step (init 0) nested [(), ()] s ∧ createdOf s.log =
      [.oneShot 1 true 15000000, ⟨0, true, true, 10000000, 10, false⟩]) ∧
    (∃ os s, Run step (init 0) nested os s ∧ Conserved s) ∧ Along step Enters (init 0) nested := by
  have h : ∀ op ∈ nested, Op.Registers op := by simp [nested, Op.Registers, Act.Registers]
  exact ⟨h, ⟨_, .cons rfl (.cons rfl (.nil _)), rfl⟩, timers_conserved 0 h⟩

end Chaining.Time.History
