import Chaining.Time.Snapshot

/-! # Timers fire in order

A batch runs its timers in the order of expiration and id, and what it leaves in the queue is not due.
Over a whole run that makes an order of all one-shot timers: one that was made earlier and does not
expire later is not run later, in whichever batches the two are (`InOrder`). -/

namespace Chaining.Time.Firing

open Relation (ReflTransGen)
open Chaining.Base.Runs Chaining.Outcome
open Chaining.Time.Defs Chaining.Time.Batch Chaining.Time.Transfer Chaining.Time.Cancel
open Chaining.Time.Registering Chaining.Time.History Chaining.Time.Snapshot

/-- When a timer is run, the one-shot timers that were made before it and do not expire later have
run. -/
def InOrder (log : List Event) : Prop :=
  ∀ post t c pre, log = post ++ .ran t c :: pre → ∀ u, .created u ∈ log → u.isRepeat = false →
    u.id < t.id → u.expTime ≤ t.expTime → 1 ≤ runs u.id pre

variable {L L' : Ledger} {s s' : EventLoop}

/-- A run of the timer is counted. -/
theorem one_le_runs {t : Timer} {c : ℤ} {log : List Event} (h : .ran t c ∈ log) : 1 ≤ runs t.id log := by
  unfold runs
  rw [Nat.one_le_iff_ne_zero, ← Nat.pos_iff_ne_zero, List.countP_pos_iff]
  exact ⟨_, h, by simp⟩

theorem runs_append (id : ℕ) (log log' : List Event) :
    runs id (log ++ log') = runs id log + runs id log' := List.countP_append

/-- Timers that are made get new ids. -/
theorem Steps.created_or (h : ReflTransGen Ledger.Step L L') :
    L.gId ≤ L'.gId ∧ ∀ t, .created t ∈ L'.log → .created t ∈ L.log ∨ L.gId ≤ t.id := by
  induction h with
  | refl => exact ⟨le_rfl, fun _ => Or.inl⟩
  | tail _ hstep ih =>
    obtain ⟨hgId, hcreated⟩ := ih
    cases hstep with
    | elsewhere n => exact ⟨hgId.trans (Nat.le_add_right _ n), hcreated⟩
    | finish => exact ⟨hgId, hcreated⟩
    | start | rearm => exact ⟨hgId, fun t ht => hcreated t (by simpa using ht)⟩
    | create u hid =>
      refine ⟨hgId.trans (Nat.le_succ _), fun t ht => ?_⟩
      rcases List.mem_cons.mp ht with h | h
      · cases h
        exact Or.inr (hid ▸ hgId)
      · exact hcreated t h

/-- Between two iterations the queue holds all timers there are. -/
theorem held_ledger (s : EventLoop) :
    (ledger s [] none).held = (s.timers.timers.toList : Multiset Timer) :=
  (Ledger.held_of_none rfl).trans (Multiset.add_zero _)

/-- The loop's ids are those of its ledger. -/
theorem wellFormed_of_inv (hs : Between s) (hI : (ledger s [] none).Inv) : WellFormed s := by
  have hnodup := hI.nodup
  rw [held_ledger, Multiset.map_coe, Multiset.coe_nodup] at hnodup
  refine ⟨hs, ⟨?_, ?_⟩⟩
  · rw [hs.1, List.map_nil, List.append_nil]
    exact hnodup
  · intro id hmem
    rw [hs.1, List.map_nil, List.append_nil] at hmem
    obtain ⟨t, ht, rfl⟩ := List.mem_map.mp hmem
    exact hI.held_lt (by rw [held_ledger]; exact ht)

/-- **What a batch does**: it runs the timers that are due, in their order, and keeps the others. -/
theorem exec_adds (h : WellFormed s) (curr : ℤ) {calls : ℕ → Call}
    (hcalls : ∀ i, ∀ a ∈ (calls i).acts, Act.Registers a)
    (he : s.execExpiredTimesTask curr calls = .ok s') :
    (∃ new, s'.timers.timers.toList.Perm (new ++ later s curr)) ∧
      ∃ new, s'.log = new ++ s.log ∧ (runsOf new).reverse = (due s curr).map fun t => (t, curr) := by
  have hlater := (getExpiredTimes_eq s curr).2
  have hbatch := expirationTimers_eq h.slots.1 curr
  obtain ⟨s₁, new, he₁, -, hadds⟩ :=
    visitAll_adds curr hcalls (due s curr) 0 (distinct_getExpiredTimes h curr) hbatch
  obtain ⟨events, hlog, hruns⟩ := hadds.log
  cases (EventLoop.execExpiredTimesTask_eq (hbatch ▸ he₁)).symm.trans he
  exact ⟨⟨new, hlater ▸ hadds.timers⟩, events, hlog, by rw [hruns, List.reverse_reverse]⟩

theorem mem_runsOf {t : Timer} {c : ℤ} {log : List Event} (h : .ran t c ∈ log) : (t, c) ∈ runsOf log :=
  List.mem_filterMap.mpr ⟨_, h, rfl⟩

/-- What stands before an element of an ordered list, in the log of its runs. -/
theorem ran_before {batch : List Timer} {curr c : ℤ} {new post pre : List Event} {t u : Timer}
    (hsorted : batch.Pairwise Timer.lt)
    (hruns : (runsOf new).reverse = batch.map fun t => (t, curr))
    (hnew : new = post ++ .ran t c :: pre) (hu : u ∈ batch) (hlt : Timer.lt u t) :
    .ran u curr ∈ pre := by
  have hsplit : runsOf new = runsOf post ++ (t, c) :: runsOf pre := by
    rw [hnew]
    exact List.filterMap_append
  rw [hsplit, List.reverse_append, List.reverse_cons, List.append_assoc] at hruns
  obtain ⟨l₁, l₂, rfl, hpre, hrest⟩ := List.map_eq_append_iff.mp hruns.symm
  obtain ⟨t', l₃, rfl, ht, hpost⟩ := List.map_eq_cons_iff.mp hrest
  cases ht
  have hbefore : u ∈ l₁ := by
    rcases List.mem_append.mp hu with hu | hu
    · exact hu
    · exfalso
      have hts := (List.pairwise_append.mp hsorted).2.1
      rcases List.mem_cons.mp hu with rfl | hu
      · exact irrefl_of Timer.lt u hlt
      · exact irrefl_of Timer.lt u (IsTrans.trans u t u hlt ((List.pairwise_cons.mp hts).1 u hu))
  have hmem : (u, curr) ∈ (runsOf pre).reverse := hpre ▸ List.mem_map_of_mem hbefore
  obtain ⟨e, he, heq⟩ := List.mem_filterMap.mp (List.mem_reverse.mp hmem)
  cases e with
  | ran v d =>
    cases heq
    exact he
  | created | rearmed => cases heq

/-- A one-shot timer that was made has run, or is in the queue as it was made. -/
theorem ran_or_waits (hs : Between s) (hI : (ledger s [] none).Inv) {u : Timer}
    (hu : .created u ∈ s.log) (hr : u.isRepeat = false) :
    1 ≤ runs u.id s.log ∨ u ∈ s.timers.timers.toList := by
  have hconserved := conserved_of_inv hs hI
  rcases hconserved.oneShot u hu hr with ⟨hran, -⟩ | ⟨-, hcount⟩
  · exact Or.inl hran.ge
  · refine Or.inr ?_
    obtain ⟨v, hv, hid⟩ := List.mem_map.mp (List.count_pos_iff.mp (hcount ▸ Nat.one_pos))
    obtain ⟨v₀, hv₀, hd⟩ := hconserved.made v hv
    have heq : v₀ = u := hI.once v₀ u hv₀ hu (hd.id_eq.symm.trans hid)
    rcases hd with hd | ⟨hrepeat, -⟩
    · rwa [← heq, ← hd]
    · rw [heq, hr] at hrepeat
      cases hrepeat

/-- An event before which nothing was run keeps the order, if the timers it makes are new. -/
theorem InOrder.append (h : InOrder s.log) {new : List Event}
    (hran : ∀ t c, .ran t c ∈ s.log → t.id < s.gId)
    (hcreated : ∀ u, .created u ∈ new ++ s.log → .created u ∈ s.log ∨ s.gId ≤ u.id)
    (hnew : ∀ post t c pre, new = post ++ .ran t c :: pre → t.id < s.gId ∧
      ∀ u, .created u ∈ s.log → u.isRepeat = false → u.id < t.id → u.expTime ≤ t.expTime →
        1 ≤ runs u.id (pre ++ s.log)) : InOrder (new ++ s.log) := by
  intro post t c pre hlog u hu hr hid hexp
  have hold : t.id < s.gId → .created u ∈ s.log := fun hlt =>
    (hcreated u hu).resolve_right (by omega)
  rcases List.append_eq_append_iff.mp hlog with ⟨mid, rfl, hsplit⟩ | ⟨mid, rfl, hsplit⟩
  · exact h mid t c pre hsplit u (hold (hran t c (by rw [hsplit]; simp))) hr hid hexp
  · cases mid with
    | nil =>
      have hsplit : s.log = .ran t c :: pre := hsplit.symm
      exact h [] t c pre hsplit u (hold (hran t c (by rw [hsplit]; simp))) hr hid hexp
    | cons e mid =>
      obtain ⟨rfl, rfl⟩ := List.cons.inj hsplit
      obtain ⟨hlt, hbefore⟩ := hnew post t c mid rfl
      exact hbefore u (hold hlt) hr hid hexp

/-- **One step** keeps the order. -/
theorem step_inOrder (hs : Between s) (hI : (ledger s [] none).Inv) (h : InOrder s.log) {op : Op}
    (hop : Op.Registers op) {o : Unit} (he : step s op = .ok (s', o)) : InOrder s'.log := by
  obtain ⟨s₁, he₁, -, hsteps⟩ := step_books hs hI hop
  cases he₁.symm.trans he
  have hran : ∀ t c, .ran t c ∈ s.log → t.id < s.gId := fun t c => hI.ran_lt
  have hcreated := (Steps.created_or hsteps).2
  cases op with
  | act a =>
    obtain ⟨s₂, hact, hgrows⟩ := @actAll_grows s [a] fun b hb => by
      rw [List.mem_singleton.mp hb]
      exact hop
    obtain ⟨s₃, hact', heq⟩ := bind_eq_ok.mp he
    cases heq
    rw [EventLoop.actAll, hact'] at hact
    cases hact
    obtain ⟨new, hlog, hruns⟩ := (adds_of_grows hgrows).log
    change ∀ u, .created u ∈ s'.log → _ at hcreated
    rw [hlog] at hcreated ⊢
    refine h.append hran hcreated fun post t c pre hnew => ?_
    have hmem := mem_runsOf (show .ran t c ∈ new by rw [hnew]; simp)
    rw [hruns] at hmem
    exact absurd hmem List.not_mem_nil
  | exec curr calls =>
    obtain ⟨s₂, hexec, heq⟩ := bind_eq_ok.mp he
    cases heq
    have hw := wellFormed_of_inv hs hI
    obtain ⟨-, new, hlog, hruns⟩ := exec_adds hw curr hop hexec
    change ∀ u, .created u ∈ s'.log → _ at hcreated
    rw [hlog] at hcreated ⊢
    refine h.append hran hcreated fun post t c pre hnew => ?_
    have hmem := mem_runsOf (show .ran t c ∈ new by rw [hnew]; simp)
    rw [← List.mem_reverse, hruns, List.mem_map] at hmem
    obtain ⟨t', ht, heq⟩ := hmem
    cases heq
    have hheld : t ∈ (ledger s [] none).held := by
      rw [held_ledger]
      exact List.mem_of_mem_filter ht
    refine ⟨hI.held_lt hheld, fun u hu hr hid hexp => ?_⟩
    rw [runs_append]
    rcases ran_or_waits hs hI hu hr with hran | hwait
    · omega
    · have hdue : t.expTime ≤ curr := of_decide_eq_true (List.mem_filter.mp ht).2
      have hu' : u ∈ due s curr := List.mem_filter.mpr ⟨hwait, decide_eq_true (hexp.trans hdue)⟩
      have hlt : Timer.lt u t := by
        unfold Timer.lt
        omega
      have hone := one_le_runs (ran_before (pairwise_due hw.distinct curr) hruns hnew hu' hlt)
      omega

/-- **Timers fire in order.** In every run of registrations and batches, whatever the readings of the
clock and wherever the registrations are made: when a timer is run, every one-shot timer that was made
before it and does not expire later has run already. -/
theorem fires_in_order (gId : ℕ) {ops : List Op} (h : ∀ op ∈ ops, Op.Registers op) :
    ∃ os s, Run step (init gId) ops os s ∧ ∀ post t c pre, s.log = post ++ .ran t c :: pre →
      ∀ u, .created u ∈ s.log → u.isRepeat = false → u.id < t.id → u.expTime ≤ t.expTime →
        1 ≤ runs u.id pre := by
  have hstep : ∀ s op, (Between s ∧ (ledger s [] none).Inv ∧ InOrder s.log) → Op.Registers op →
      ∃ s' o, step s op = .ok (s', o) ∧ Between s' ∧ (ledger s' [] none).Inv ∧ InOrder s'.log := by
    rintro s op ⟨hs, hI, hO⟩ hop
    obtain ⟨s', he, hs', hsteps⟩ := step_books hs hI hop
    exact ⟨s', (), he, hs', Steps.inv hsteps hI, step_inOrder hs hI hO hop he⟩
  have hinit : InOrder (init gId).log := fun post t c pre hlog => by simp [init] at hlog
  obtain ⟨os, s, hrun, -, -, hO⟩ :=
    exists_run hstep ⟨⟨rfl, rfl⟩, inv_init gId, hinit⟩ (along_of_forall _ h)
  exact ⟨os, s, hrun, hO⟩

/-- Two timers for one instant, and one that a callback registers for an earlier one. -/
def overtaken : List Op :=
  [.act (.register (.runUntil true 10)), .act (.register (.runUntil true 10)),
    .exec 12 fun _ => ⟨[.register (.runUntil true 5)], 12⟩, .exec 20 fun _ => ⟨[], 20⟩]

theorem fires_in_order_overtaken :
    (∀ op ∈ overtaken, Op.Registers op) ∧
      ∃ os s, Run step (init 0) overtaken os s ∧ ∀ post t c pre, s.log = post ++ .ran t c :: pre →
        ∀ u, .created u ∈ s.log → u.isRepeat = false → u.id < t.id → u.expTime ≤ t.expTime →
          1 ≤ runs u.id pre := by
  have h : ∀ op ∈ overtaken, Op.Registers op := by
    simp [overtaken, Op.Registers, Act.Registers]
  exact ⟨h, fires_in_order 0 h⟩

end Chaining.Time.Firing
