import Chaining.Base.Runs
import Chaining.Time.Batch

/-! # Cancelled timers

`cancel` sets a flag that only `reset` looks at. So a timer that is cancelled and then due is run all
the same; and a repeating one, to which `reset` gives the default instant then, is handed back to the
queue, where it is due in every later batch.

`Quiet` is what a step owes to the timers that are cancelled, and `Spared` the condition under which
it gives them that. `quiet_iff_spared` says that they are the same for whole runs. What a callback
does to the loop is `Effect`; the loop over the batch is followed with the timers of the slots that
are still to be passed (`visitAll_progress`). -/

namespace Chaining.Time.Cancel

open Chaining.Base.Ordered Chaining.Base.Runs Chaining.Outcome
open Chaining.Time.Defs Chaining.Time.Batch

/-- The intervals given are positive, as the constructor of a repeating timer asserts. -/
def Act.Valid : Act → Prop
  | .register (.runEvery _ ms _) => 0 < ms
  | .addTimer _ _ (some ms) => 0 < ms
  | _ => True

def Op.Valid : Op → Prop
  | .act a => Act.Valid a
  | .exec _ calls => ∀ i, ∀ a ∈ (calls i).acts, Act.Valid a

/-- The ids in the queue. -/
def ids (s : EventLoop) : List ℕ := s.timers.timers.toList.map Timer.id

/-- The timers owned by the queue and by the slots to be passed have ids of their own. -/
structure Distinct (s : EventLoop) : Prop where
  nodup : (ids s ++ s.expirationTimers.map Timer.id).Nodup
  lt : ∀ id ∈ ids s ++ s.expirationTimers.map Timer.id, id < s.gId

/-- **A loop between two iterations**, whatever is in its queue. -/
structure WellFormed (s : EventLoop) : Prop where
  slots : s.expirationTimers = [] ∧ s.passed = []
  distinct : Distinct s

/-! ### What is owed, and when it is given -/

/-- No callback of a cancelled timer is invoked, and no cancelled timer is handed back. -/
def Event.Quiet : Event → Prop
  | .created _ => True
  | .ran t _ => t.canceled = true → t.timercb = false
  | .rearmed t _ => t.canceled = false

/-- **What a step owes** to cancelled timers: it returns, having invoked no callback of a timer that
was cancelled by then and handed none back; and a timer that was cancelled before a batch in which it
is due is not in the queue behind it. -/
def Quiet (s : EventLoop) (op : Op) : Prop :=
  ∃ s' new, step s op = .ok (s', ()) ∧ s'.log = new ++ s.log ∧ (∀ e ∈ new, Event.Quiet e) ∧
    ∀ curr calls, op = .exec curr calls →
      ∀ t ∈ s.timers.timers.toList, t.canceled = true → t.expTime ≤ curr → t.id ∉ ids s'

/-- A one-shot timer without a callback. -/
def Silent (t : Timer) : Prop := t.timercb = false ∧ t.isRepeat = false

/-- The timers of the batch that are cancelled before their slot is reached are silent, and no
repeating timer's callback cancels that timer. -/
def SparedFrom (calls : ℕ → Call) : ℕ → List Timer → Prop
  | _, [] => True
  | i, t :: rest =>
    (t.canceled = true → Silent t) ∧
      (t.timercb = true → (t.isRepeat = true → t.id ∉ cancels (calls i).acts) ∧
        ∀ u ∈ rest, u.id ∈ cancels (calls i).acts → Silent u) ∧
      SparedFrom calls (i + 1) rest

/-- **The condition**, on the timers that are due. -/
def Spared (s : EventLoop) : Op → Prop
  | .act _ => True
  | .exec curr calls => SparedFrom calls 0 (s.timers.getExpiredTimes curr).1

/-! ### Acts -/

theorem cancelIn_nil (t : Timer) : cancelIn [] t = t := if_neg List.not_mem_nil

theorem cancelIn_append (a b : List ℕ) (t : Timer) : cancelIn b (cancelIn a t) = cancelIn (a ++ b) t := by
  unfold cancelIn
  by_cases ha : t.id ∈ a <;> by_cases hb : t.id ∈ b <;> simp [ha, hb, Timer.cancel]

/-- What acts do to the loop: the timers with the ids `cancelled` are cancelled, and timers of new ids
come into the queue. -/
structure Effect (cancelled : List ℕ) (s s' : EventLoop) : Prop where
  slots : s'.expirationTimers = s.expirationTimers.map (cancelIn cancelled)
  passed : s'.passed = s.passed.map (cancelIn cancelled)
  gId : s.gId ≤ s'.gId
  log : ∃ new, s'.log = new ++ s.log ∧ ∀ e ∈ new, Event.Quiet e
  absent : ∀ id < s.gId, id ∉ ids s → id ∉ ids s'
  distinct : Distinct s'

namespace Effect

variable {a b : List ℕ} {s s' s'' : EventLoop}

theorem refl (h : Distinct s) : Effect [] s s where
  slots := by rw [funext cancelIn_nil, List.map_id']
  passed := by rw [funext cancelIn_nil, List.map_id']
  gId := le_rfl
  log := ⟨[], rfl, fun _ he => absurd he List.not_mem_nil⟩
  absent _ _ h := h
  distinct := h

theorem trans (h : Effect a s s') (h' : Effect b s' s'') : Effect (a ++ b) s s'' where
  slots := by
    rw [h'.slots, h.slots, List.map_map]
    exact List.map_congr_left fun t _ => cancelIn_append a b t
  passed := by
    rw [h'.passed, h.passed, List.map_map]
    exact List.map_congr_left fun t _ => cancelIn_append a b t
  gId := h.gId.trans h'.gId
  log := by
    obtain ⟨new, hl, hn⟩ := h.log
    obtain ⟨new', hl', hn'⟩ := h'.log
    refine ⟨new' ++ new, by rw [hl', hl, List.append_assoc], fun e he => ?_⟩
    exact (List.mem_append.mp he).elim (hn' e) (hn e)
  absent id hid hn := h'.absent id (hid.trans_le h.gId) (h.absent id hid hn)
  distinct := h'.distinct

end Effect

variable {s s' : EventLoop}

theorem ids_insert (q : TimerQueue) (t : Timer) :
    ((q.insert t).timers.toList.map Timer.id).Perm (t.id :: q.timers.toList.map Timer.id) :=
  (q.timers.perm_insert t).map Timer.id

/-- A timer with the next id comes into the queue. -/
theorem effect_insert (h : Distinct s) {t : Timer} (hid : t.id = s.gId) :
    Effect [] s { s with
      gId := s.gId + 1, timers := s.timers.insert t, log := .created t :: s.log } := by
  have hperm : (ids { s with
      gId := s.gId + 1, timers := s.timers.insert t, log := .created t :: s.log }).Perm
        (t.id :: ids s) := ids_insert s.timers t
  constructor
  case slots => exact (Effect.refl h).slots
  case passed => exact (Effect.refl h).passed
  case gId => exact Nat.le_succ _
  case log =>
    refine ⟨[.created t], rfl, fun e he => ?_⟩
    rw [List.mem_singleton.mp he]
    trivial
  case absent =>
    intro id hlt hn hmem
    rcases List.mem_cons.mp (hperm.mem_iff.mp hmem) with rfl | hmem
    · omega
    · exact hn hmem
  case distinct =>
    constructor
    · rw [(hperm.append_right _).nodup_iff, List.cons_append, List.nodup_cons]
      refine ⟨fun hmem => ?_, h.nodup⟩
      have hlt := h.lt _ hmem
      omega
    · intro id hmem
      rw [(hperm.append_right _).mem_iff, List.cons_append] at hmem
      show id < s.gId + 1
      rcases List.mem_cons.mp hmem with rfl | hmem
      · omega
      · exact Nat.lt_succ_of_lt (h.lt id hmem)

theorem effect_cancel (h : Distinct s) (id : ℕ) : Effect [id] s (s.cancel id) := by
  have hmap : ∀ l : List Timer, (l.map (cancelIn [id])).map Timer.id = l.map Timer.id := fun l => by
    rw [List.map_map]
    exact List.map_congr_left fun t _ => (cancelIn_frame [id] t).1
  have hids : ids (s.cancel id) = ids s := hmap s.timers.timers.toList
  have hslots : (s.cancel id).expirationTimers.map Timer.id = s.expirationTimers.map Timer.id :=
    hmap s.expirationTimers
  constructor
  case slots => rfl
  case passed => rfl
  case gId => exact le_rfl
  case log => exact ⟨[], rfl, fun _ he => absurd he List.not_mem_nil⟩
  case absent =>
    intro i _ hn
    rw [hids]
    exact hn
  case distinct =>
    constructor
    · rw [hids, hslots]
      exact h.nodup
    · rw [hids, hslots]
      exact h.lt

theorem effect_elsewhere (h : Distinct s) (n : ℕ) : Effect [] s { s with gId := s.gId + n } where
  slots := (Effect.refl h).slots
  passed := (Effect.refl h).passed
  gId := Nat.le_add_right _ n
  log := (Effect.refl h).log
  absent _ _ hn := hn
  distinct := ⟨h.nodup, fun id hmem => (h.lt id hmem).trans_le (Nat.le_add_right _ n)⟩

/-- The search of `addTimer` finds no timer of an id that is not in the queue. -/
theorem find_eq_none_of_absent {t : Timer} (h : t.id ∉ ids s) : s.timers.timers.find t = none := by
  rw [OrderedList.find_eq_none]
  intro u hu
  have hne : t.id ≠ u.id := fun hid => h (hid ▸ List.mem_map_of_mem hu)
  unfold Timer.lt
  omega

theorem handOver_effect (h : Distinct s) {timercb : Bool} {expTime : ℤ} {interval : Option ℤ}
    (hv : ∀ ms ∈ interval, 0 < ms) :
    ∃ s', s.handOver timercb expTime interval = .ok s' ∧ Effect [] s s' := by
  have hadd : ∀ t : Timer, t.id = s.gId → s.timers.addTimer (some t) = .ok (s.timers.insert t) := by
    intro t hid
    have habs : t.id ∉ ids s := fun hmem => by
      have hlt := h.lt _ (List.mem_append_left _ hmem)
      omega
    exact if_neg (by rw [find_eq_none_of_absent habs]; decide)
  obtain ⟨t, hmake, hid⟩ : ∃ t, s.make timercb expTime interval = .ok t ∧ t.id = s.gId := by
    cases interval with
    | none => exact ⟨_, rfl, rfl⟩
    | some ms => exact ⟨_, if_pos (hv ms rfl), rfl⟩
  refine ⟨_, ?_, effect_insert h hid⟩
  unfold EventLoop.handOver
  rw [hmake, ok_bind, hadd t hid]
  rfl

/-- **One act** succeeds. -/
theorem act_effect (h : Distinct s) {a : Act} (ha : Act.Valid a) :
    ∃ s', s.act a = .ok s' ∧ Effect (cancels [a]) s s' := by
  cases a with
  | register r =>
    cases r with
    | runAfter timercb ms now => exact ⟨_, rfl, effect_insert h rfl⟩
    | runUntil timercb expireTime => exact ⟨_, rfl, effect_insert h rfl⟩
    | runEvery timercb ms now =>
      have hms : 0 < ms := ha
      refine ⟨_, ?_, effect_insert h
        (t := ⟨s.gId, timercb, true, addMilliseconds now ms, ms, false⟩) rfl⟩
      simp [EventLoop.act, EventLoop.register, EventLoop.runEvery, Timer.repeating, hms,
        EventLoop.take]
  | cancel id => exact ⟨_, rfl, effect_cancel h id⟩
  | addTimer timercb expTime interval =>
    refine handOver_effect h fun ms hms => ?_
    cases hms
    exact ha
  | elsewhere n => exact ⟨_, rfl, effect_elsewhere h n⟩

theorem actAll_effect : ∀ {s : EventLoop} {acts : List Act}, Distinct s →
    (∀ a ∈ acts, Act.Valid a) → ∃ s', s.actAll acts = .ok s' ∧ Effect (cancels acts) s s'
  | s, [], h, _ => ⟨s, rfl, .refl h⟩
  | s, a :: acts, h, hv => by
    obtain ⟨s₁, he, h1⟩ := act_effect h (hv a List.mem_cons_self)
    obtain ⟨s₂, he', h2⟩ := actAll_effect h1.distinct fun b hb => hv b (List.mem_cons_of_mem a hb)
    have hc : cancels (a :: acts) = cancels [a] ++ cancels acts :=
      List.filterMap_append (l := [a])
    exact ⟨s₂, by rw [EventLoop.actAll, he, ok_bind, he'], hc ▸ h1.trans h2⟩

/-- The ids that the run of a timer cancels. -/
def cancelled (t : Timer) (acts : List Act) : List ℕ := if t.timercb then cancels acts else []

theorem run_effect (h : Distinct s) (t : Timer) {acts : List Act} (hv : ∀ a ∈ acts, Act.Valid a) :
    ∃ s', s.run t acts = .ok s' ∧ Effect (cancelled t acts) s s' := by
  unfold EventLoop.run cancelled
  split_ifs
  · exact actAll_effect h hv
  · exact ⟨s, rfl, .refl h⟩

/-! ### The batch -/

theorem silent_cancelIn (c : List ℕ) (t : Timer) : Silent (cancelIn c t) ↔ Silent t := by
  obtain ⟨-, htimercb, hrepeat, -⟩ := cancelIn_frame c t
  unfold Silent
  rw [htimercb, hrepeat]

/-- The timers that one callback cancelled are among those that must be silent. -/
theorem sparedFrom_map (calls : ℕ → Call) (c : List ℕ) : ∀ (i : ℕ) (todo : List Timer),
    SparedFrom calls i (todo.map (cancelIn c)) ↔
      (∀ u ∈ todo, u.id ∈ c → Silent u) ∧ SparedFrom calls i todo
  | _, [] => by simp [SparedFrom]
  | i, t :: rest => by
    obtain ⟨hid, htimercb, hrepeat, -⟩ := cancelIn_frame c t
    have hrest : (∀ u ∈ rest.map (cancelIn c), u.id ∈ cancels (calls i).acts → Silent u) ↔
        ∀ u ∈ rest, u.id ∈ cancels (calls i).acts → Silent u := by
      rw [List.forall_mem_map]
      refine forall₂_congr fun u _ => ?_
      rw [(cancelIn_frame c u).1, silent_cancelIn]
    rw [List.map_cons, SparedFrom, SparedFrom, hid, htimercb, hrepeat, silent_cancelIn, hrest,
      cancelIn_canceled, sparedFrom_map calls c (i + 1) rest, List.forall_mem_cons]
    constructor
    · rintro ⟨hc, hcb, hsil, hsp⟩
      exact ⟨⟨fun h => hc (Or.inr h), hsil⟩, fun h => hc (Or.inl h), hcb, hsp⟩
    · rintro ⟨⟨ht, hsil⟩, hc, hcb, hsp⟩
      exact ⟨fun h => h.elim hc ht, hcb, hsil, hsp⟩

/-- What the loop over the batch has done since `s`, when the new events are quiet exactly if `P`, and
an id came back into the queue only if `B`. -/
structure Progress (P : Prop) (B : ℕ → Prop) (s s' : EventLoop) : Prop where
  gId : s.gId ≤ s'.gId
  distinct : Distinct s'
  absent : ∀ id < s.gId, id ∉ ids s → ¬ B id → id ∉ ids s'
  log : ∃ new, s'.log = new ++ s.log ∧ ((∀ e ∈ new, Event.Quiet e) ↔ P)

variable {t : Timer} {rest : List Timer}

/-- Nor does it find the timer of the next slot, once that is reset. -/
theorem find_reset_eq_none (h : Distinct s) (hs : s.expirationTimers = t :: rest) (now : ℤ) :
    s.timers.timers.find (t.reset now) = none := by
  have hnd := h.nodup
  rw [hs, List.map_cons] at hnd
  refine find_eq_none_of_absent fun hmem => ?_
  rw [(t.reset_frame now).1] at hmem
  exact (List.nodup_append.mp hnd).2.2 _ hmem _ List.mem_cons_self rfl

/-- The slot of a timer that has been run is passed. -/
theorem settle_progress (h : Distinct s) (hs : s.expirationTimers = t :: rest) (now : ℤ) :
    ∃ s', s.settle now = .ok s' ∧ s'.expirationTimers = rest ∧
      Progress (t.isRepeat = true → t.canceled = false) (fun id => t.id = id ∧ t.isRepeat = true)
        s s' := by
  have hnd := h.nodup
  have hlt := h.lt
  rw [hs, List.map_cons] at hnd hlt
  by_cases hr : t.isRepeat = true
  · obtain ⟨hid, -, -, -, hcan⟩ := t.reset_frame now
    have hfind := find_reset_eq_none h hs now
    have hperm := ids_insert s.timers (t.reset now)
    rw [hid] at hperm
    have hall : ((s.timers.insert (t.reset now)).timers.toList.map Timer.id ++
        rest.map Timer.id).Perm (ids s ++ t.id :: rest.map Timer.id) :=
      (hperm.append_right _).trans List.perm_middle.symm
    refine ⟨_, EventLoop.settle_repeating hs hr now hfind, rfl, le_rfl, ⟨?_, ?_⟩, ?_, ?_⟩
    · exact hall.nodup_iff.mpr hnd
    · exact fun id hmem => hlt id (hall.mem_iff.mp hmem)
    · intro id _ hn hB hmem
      rcases List.mem_cons.mp (hperm.mem_iff.mp hmem) with heq | hmem
      · exact hB ⟨heq.symm, hr⟩
      · exact hn hmem
    · refine ⟨[.rearmed (t.reset now) now], rfl, ?_⟩
      rw [List.forall_mem_singleton]
      show (t.reset now).canceled = false ↔ _
      rw [hcan]
      exact ⟨fun hc _ => hc, fun hc => hc hr⟩
  · have hr : t.isRepeat = false := by simpa using hr
    have hsub : (ids s ++ rest.map Timer.id).Sublist (ids s ++ t.id :: rest.map Timer.id) :=
      (List.sublist_cons_self _ _).append_left _
    refine ⟨_, EventLoop.settle_oneShot hs hr now, rfl, le_rfl, ⟨?_, ?_⟩, ?_, ?_⟩
    · exact hsub.nodup hnd
    · exact fun id hmem => hlt id (hsub.subset hmem)
    · exact fun id _ hn _ => hn
    · exact ⟨[], rfl, iff_of_true (fun _ he => absurd he List.not_mem_nil)
        fun hc => by rw [hr] at hc; cases hc⟩

/-- **One slot**: it is quiet exactly if its timer is not cancelled or is silent, and does not cancel
itself to be repeated. -/
theorem visit_progress (h : Distinct s) (hs : s.expirationTimers = t :: rest) (curr : ℤ) {call : Call}
    (hv : ∀ a ∈ call.acts, Act.Valid a) :
    ∃ s', s.visit curr call = .ok s' ∧
      s'.expirationTimers = rest.map (cancelIn (cancelled t call.acts)) ∧
      Progress ((t.canceled = true → Silent t) ∧
          (t.timercb = true → t.isRepeat = true → t.id ∉ cancels call.acts))
        (fun id => t.id = id ∧ t.isRepeat = true) s s' := by
  obtain ⟨s₁, hrun, he⟩ :=
    run_effect (s := { s with log := .ran t curr :: s.log }) ⟨h.nodup, h.lt⟩ t hv
  have hs₁ : s₁.expirationTimers = cancelIn (cancelled t call.acts) t ::
      rest.map (cancelIn (cancelled t call.acts)) := by
    rw [he.slots, hs, List.map_cons]
  obtain ⟨s₂, hset, hs₂, hp⟩ := settle_progress he.distinct hs₁ call.now
  obtain ⟨hid, -, hrepeat, -⟩ := cancelIn_frame (cancelled t call.acts) t
  refine ⟨s₂, ?_, hs₂, he.gId.trans hp.gId, hp.distinct, ?_, ?_⟩
  · rw [EventLoop.visit_cons hs, hrun, ok_bind, hset]
  · intro id hlt hn hB
    refine hp.absent id (hlt.trans_le he.gId) (he.absent id hlt hn) ?_
    rw [hid, hrepeat]
    exact hB
  · obtain ⟨new, hl, hn⟩ := he.log
    obtain ⟨new', hl', hn'⟩ := hp.log
    refine ⟨new' ++ new ++ [.ran t curr], by rw [hl', hl]; simp, ?_⟩
    have hran : Event.Quiet (.ran t curr) ↔ (t.canceled = true → t.timercb = false) := Iff.rfl
    rw [List.forall_mem_append, List.forall_mem_append, List.forall_mem_singleton, hn', hrepeat,
      ← Bool.not_eq_true, cancelIn_canceled, iff_true_intro hn, hran]
    unfold Silent cancelled
    cases t.timercb <;> cases t.isRepeat <;> cases t.canceled <;> simp

/-- **The loop over the batch**, by induction over its slots: it is quiet exactly if the timers are
spared. -/
theorem visitAll_progress (curr : ℤ) {calls : ℕ → Call}
    (hv : ∀ i, ∀ a ∈ (calls i).acts, Act.Valid a) :
    ∀ (n i : ℕ) {s : EventLoop}, Distinct s → s.expirationTimers.length = n →
      ∃ s', EventLoop.visitAll curr calls n i s = .ok s' ∧
        Progress (SparedFrom calls i s.expirationTimers)
          (fun id => ∃ u ∈ s.expirationTimers, u.id = id ∧ u.isRepeat = true) s s'
  | 0, i, s, h, hn => by
    have hnil := List.length_eq_zero_iff.mp hn
    rw [hnil]
    exact ⟨s, rfl, le_rfl, h, fun _ _ hn _ => hn, [], rfl,
      iff_of_true (fun _ he => absurd he List.not_mem_nil) trivial⟩
  | n + 1, i, s, h, hn => by
    obtain ⟨t, rest, hs⟩ := List.exists_cons_of_length_eq_add_one hn
    obtain ⟨s₁, he, hs₁, hp⟩ := visit_progress h hs curr (hv i)
    have hn₁ : s₁.expirationTimers.length = n := by
      rw [hs] at hn
      rw [hs₁, List.length_map]
      exact Nat.succ.inj hn
    obtain ⟨s₂, he', hp'⟩ := visitAll_progress curr hv n (i + 1) hp.distinct hn₁
    refine ⟨s₂, by rw [EventLoop.visitAll, he, ok_bind, he'], hp.gId.trans hp'.gId, hp'.distinct,
      ?_, ?_⟩
    · intro id hlt hid hB
      rw [hs] at hB
      refine hp'.absent id (hlt.trans_le hp.gId) (hp.absent id hlt hid fun ht => ?_) ?_
      · exact hB ⟨t, List.mem_cons_self, ht⟩
      · rintro ⟨u, hu, hid, hr⟩
        rw [hs₁] at hu
        obtain ⟨v, hv, rfl⟩ := List.mem_map.mp hu
        obtain ⟨hidv, -, hrv, -⟩ := cancelIn_frame (cancelled t (calls i).acts) v
        exact hB ⟨v, List.mem_cons_of_mem t hv, hidv ▸ hid, hrv ▸ hr⟩
    · obtain ⟨new, hl, hq⟩ := hp.log
      obtain ⟨new', hl', hq'⟩ := hp'.log
      refine ⟨new' ++ new, by rw [hl', hl, List.append_assoc], ?_⟩
      rw [List.forall_mem_append, hq, hq', hs₁, hs, sparedFrom_map, SparedFrom]
      unfold cancelled
      by_cases htimercb : t.timercb = true
      · rw [if_pos htimercb]
        constructor
        · rintro ⟨⟨hsil, hsp⟩, ht, hown⟩
          exact ⟨ht, fun h => ⟨hown h, hsil⟩, hsp⟩
        · rintro ⟨ht, hown, hsp⟩
          exact ⟨⟨(hown htimercb).2, hsp⟩, ht, fun h => (hown h).1⟩
      · rw [if_neg htimercb]
        constructor
        · rintro ⟨⟨-, hsp⟩, ht, -⟩
          exact ⟨ht, fun h => absurd h htimercb, hsp⟩
        · rintro ⟨ht, -, hsp⟩
          exact ⟨⟨fun u _ hu => absurd hu List.not_mem_nil, hsp⟩, ht, fun h => absurd h htimercb⟩

/-! ### Steps and runs -/

/-- The batch is taken from the queue. -/
theorem distinct_getExpiredTimes (h : WellFormed s) (curr : ℤ) : Distinct (s.getExpiredTimes curr) := by
  have happ := s.timers.getExpiredTimes_append curr
  have hperm : (ids (s.getExpiredTimes curr) ++
      (s.getExpiredTimes curr).expirationTimers.map Timer.id).Perm
        (ids s ++ s.expirationTimers.map Timer.id) := by
    unfold ids EventLoop.getExpiredTimes
    dsimp only
    rw [h.slots.1, ← happ, List.nil_append, List.map_append, List.map_nil, List.append_nil]
    exact List.perm_append_comm
  exact ⟨hperm.nodup_iff.mpr h.distinct.nodup, fun id hmem =>
    h.distinct.lt id (hperm.mem_iff.mp hmem)⟩

/-- **One batch** succeeds, leaves the loop well-formed, and is quiet exactly if the timers that are
due are spared. -/
theorem exec_progress (h : WellFormed s) (curr : ℤ) {calls : ℕ → Call}
    (hv : ∀ i, ∀ a ∈ (calls i).acts, Act.Valid a) :
    ∃ s', step s (.exec curr calls) = .ok (s', ()) ∧ WellFormed s' ∧
      Progress (SparedFrom calls 0 (s.timers.getExpiredTimes curr).1)
        (fun id => ∃ u ∈ (s.timers.getExpiredTimes curr).1, u.id = id ∧ u.isRepeat = true)
        (s.getExpiredTimes curr) s' := by
  have hbatch : (s.getExpiredTimes curr).expirationTimers = (s.timers.getExpiredTimes curr).1 := by
    unfold EventLoop.getExpiredTimes
    rw [h.slots.1, List.nil_append]
  obtain ⟨s', he, hp⟩ := visitAll_progress curr hv _ 0 (distinct_getExpiredTimes h curr) rfl
  rw [hbatch] at hp
  have hd : Distinct { s' with expirationTimers := [], passed := [] } := by
    refine ⟨?_, fun id hmem => hp.distinct.lt id ?_⟩
    · exact (List.append_nil _).symm ▸ (List.nodup_append.mp hp.distinct.nodup).1
    · exact List.mem_append_left _ (by simpa [ids] using hmem)
  exact ⟨{ s' with expirationTimers := [], passed := [] },
    step_exec (EventLoop.execExpiredTimesTask_eq he), ⟨⟨rfl, rfl⟩, hd⟩, hp.gId, hd, hp.absent, hp.log⟩

theorem SparedFrom.silent {calls : ℕ → Call} : ∀ {i : ℕ} {todo : List Timer},
    SparedFrom calls i todo → ∀ t ∈ todo, t.canceled = true → Silent t
  | _, _ :: _, ⟨ht, _, hrest⟩, u, hu, hc => by
    rcases List.mem_cons.mp hu with rfl | hu
    · exact ht hc
    · exact hrest.silent u hu hc

/-- A cancelled timer that is due and spared is not in the queue behind the batch: it was in the batch,
and only a repeating timer of its id could bring it back. -/
theorem absent_of_spared (h : WellFormed s) {curr : ℤ} {calls : ℕ → Call} {P : Prop}
    (hp : Progress P
      (fun id => ∃ u ∈ (s.timers.getExpiredTimes curr).1, u.id = id ∧ u.isRepeat = true)
      (s.getExpiredTimes curr) s')
    (hsp : SparedFrom calls 0 (s.timers.getExpiredTimes curr).1) {t : Timer}
    (ht : t ∈ s.timers.timers.toList) (hc : t.canceled = true) (hdue : t.expTime ≤ curr) :
    t.id ∉ ids s' := by
  have happ := s.timers.getExpiredTimes_append curr
  have hnd : (s.timers.timers.toList.map Timer.id).Nodup :=
    (List.nodup_append.mp h.distinct.nodup).1
  have hlt := h.distinct.lt t.id (List.mem_append_left _ (List.mem_map_of_mem ht))
  have hone : ∀ u ∈ s.timers.timers.toList, u.id = t.id → u = t := fun u hu hid =>
    List.inj_on_of_nodup_map hnd hu ht hid
  have hbatch : t ∈ (s.timers.getExpiredTimes curr).1 := by
    rw [← happ] at ht
    rcases List.mem_append.mp ht with ht | ht
    · exact ht
    · exact absurd (TimerQueue.lt_expTime_of_mem ht) (not_lt.mpr hdue)
  refine hp.absent t.id hlt ?_ ?_
  · intro hrest
    obtain ⟨u, hu, hid⟩ := List.mem_map.mp hrest
    have hut := hone u (happ ▸ List.mem_append_right _ hu) hid
    rw [hut] at hu
    exact absurd (TimerQueue.lt_expTime_of_mem hu) (not_lt.mpr hdue)
  · rintro ⟨u, hu, hid, hr⟩
    have hut := hone u (happ ▸ List.mem_append_left _ hu) hid
    rw [hut, (hsp.silent t hbatch hc).2] at hr
    simp at hr

/-- **One step** is quiet exactly if the timers are spared. -/
theorem step_quiet_iff (h : WellFormed s) {op : Op} (hop : Op.Valid op) :
    Quiet s op ↔ Spared s op := by
  cases op with
  | act a =>
    obtain ⟨s', he, heff⟩ := act_effect h.distinct hop
    obtain ⟨new, hl, hn⟩ := heff.log
    exact iff_of_true ⟨s', new, step_act he, hl, hn, by simp⟩ trivial
  | exec curr calls =>
    obtain ⟨s', he, -, hp⟩ := exec_progress h curr hop
    obtain ⟨new, hl, hq⟩ := hp.log
    have hlog : s'.log = new ++ s.log := hl
    constructor
    · rintro ⟨s'', new', he', hl', hn', -⟩
      cases he.symm.trans he'
      have hnew : new = new' := List.append_cancel_right (hlog.symm.trans hl')
      exact hq.mp (hnew ▸ hn')
    · intro hsp
      refine ⟨s', new, he, hlog, hq.mpr hsp, fun curr' calls' heq t ht hc hdue => ?_⟩
      cases heq
      exact absent_of_spared h hp hsp ht hc hdue

theorem step_wellFormed (h : WellFormed s) {op : Op} (hop : Op.Valid op) {o : Unit}
    (he : step s op = .ok (s', o)) : WellFormed s' := by
  cases op with
  | act a =>
    obtain ⟨s₁, he₁, heff⟩ := act_effect h.distinct hop
    cases (step_act he₁).symm.trans he
    refine ⟨⟨?_, ?_⟩, heff.distinct⟩
    · rw [heff.slots, h.slots.1, List.map_nil]
    · rw [heff.passed, h.slots.2, List.map_nil]
  | exec curr calls =>
    obtain ⟨s₁, he₁, hw, -⟩ := exec_progress h curr hop
    cases he₁.symm.trans he
    exact hw

/-- **The exact condition.** In a run from any loop between two iterations no cancelled timer's
callback is invoked and none stays in the queue past a batch in which it is due, if and only if in
every batch the timers that are due are spared: those cancelled before their turn are one-shot timers
without a callback, and no repeating timer's callback cancels that timer. -/
theorem quiet_iff_spared (hs : WellFormed s) {ops : List Op} (hops : ∀ op ∈ ops, Op.Valid op) :
    Along step Quiet s ops ↔ Along step Spared s ops :=
  along_iff (I := WellFormed) (A := fun _ op => Op.Valid op)
    (fun _ _ h hop => step_quiet_iff h hop)
    (fun _ _ _ _ h hop _ he => step_wellFormed h hop he) hs (along_of_forall s hops)

theorem wellFormed_init (gId : ℕ) : WellFormed (init gId) :=
  ⟨⟨rfl, rfl⟩, List.nodup_nil, fun _ hmem => absurd hmem List.not_mem_nil⟩

/-- A one-shot timer without a callback is cancelled, and due in one batch with a timer that is not. -/
def cancelledBeside : List Op :=
  [.act (.addTimer false 100 none), .act (.addTimer true 100 none), .act (.cancel 0),
    .exec 200 fun _ => ⟨[], 200⟩]

/-- It is spared, and the batch is quiet. -/
theorem quiet_iff_spared_once :
    (Along step Quiet (init 0) cancelledBeside ↔ Along step Spared (init 0) cancelledBeside) ∧
      Along step Spared (init 0) cancelledBeside ∧
      ∃ s, Run step (init 0) cancelledBeside [(), (), (), ()] s ∧
        s.log.head? = some (.ran ⟨1, true, false, 100, 0, false⟩ 200) ∧ ids s = [] := by
  refine ⟨quiet_iff_spared (wellFormed_init 0) (by simp [cancelledBeside, Op.Valid, Act.Valid]), ?_, ?_⟩
  · refine .cons trivial rfl (.cons trivial rfl (.cons trivial rfl ⟨?_, fun _ _ _ => trivial⟩))
    exact ⟨fun _ => ⟨rfl, rfl⟩, fun h => (Bool.false_ne_true h).elim, fun h => (Bool.false_ne_true h).elim,
      fun _ => ⟨fun h => (Bool.false_ne_true h).elim, fun u hu => by cases hu⟩, trivial⟩
  · exact ⟨_, .cons rfl (.cons rfl (.cons rfl (.cons rfl (.nil _)))), rfl, rfl⟩

/-- A one-shot timer is cancelled before it is due, and its callback is invoked; a repeating one without
a callback is cancelled before it is due, and is in the queue behind the batch. -/
theorem cancelled_timer_runs :
    (∀ op ∈ [Op.act (.addTimer true 100 none), .act (.cancel 0), .exec 200 fun _ => ⟨[], 200⟩],
      Op.Valid op) ∧
    ¬ Along step Quiet (init 0) [.act (.addTimer true 100 none), .act (.cancel 0),
      .exec 200 fun _ => ⟨[], 200⟩] ∧
    ¬ Along step Quiet (init 0) [.act (.addTimer false 100 (some 5)), .act (.cancel 0),
      .exec 200 fun _ => ⟨[], 200⟩] := by
  refine ⟨by simp [Op.Valid, Act.Valid], ?_, ?_⟩
  · rintro ⟨-, h⟩
    obtain ⟨-, h⟩ := h _ _ rfl
    obtain ⟨⟨s', new, he, hl, hquiet, -⟩, -⟩ := h _ _ rfl
    cases he
    have hnew : [.ran ⟨0, true, false, 100, 0, true⟩ 200] = new := List.append_cancel_right hl
    have hran : Event.Quiet (.ran ⟨0, true, false, 100, 0, true⟩ 200) :=
      hquiet _ (hnew ▸ List.mem_cons_self)
    exact absurd (hran rfl) (by decide)
  · rintro ⟨-, h⟩
    obtain ⟨-, h⟩ := h _ _ rfl
    obtain ⟨⟨s', new, he, -, -, hgone⟩, -⟩ := h _ _ rfl
    cases he
    have habs := hgone 200 _ rfl ⟨0, false, true, 100, 5, true⟩ List.mem_cons_self rfl (by decide)
    exact habs List.mem_cons_self

end Chaining.Time.Cancel
