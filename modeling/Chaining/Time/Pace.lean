import Chaining.Time.Firing

/-! # Repeating timers keep their distance

A repeating timer is re-armed from the clock after each run, so that delays add up and are never made
good: however late the loop is, the `n + 1`-th run of a timer does not come before its first expiration
and `n` intervals. That needs a clock that is not set back between the start of a batch and the resets
in it (`Op.Forward`), and resets that do not overflow; between batches the clock may do what it likes.

`Paced` adds to the ledger's invariant how far the timers have come, counted in their runs
(`Step.paced`); `runs_paced` is what follows for whole runs. -/

namespace Chaining.Time.Pace

open Relation (ReflTransGen)
open Chaining.Base.Runs Chaining.Outcome
open Chaining.Time.Defs Chaining.Time.Batch Chaining.Time.Registering Chaining.Time.Transfer
open Chaining.Time.History Chaining.Time.Snapshot Chaining.Time.Firing

/-! ### Histories -/

/-- The reading of the batch a timer ran in last, if it has run. -/
def lastRun (id : ℕ) : List Event → Option ℤ
  | [] => none
  | .created _ :: log => lastRun id log
  | .ran t curr :: log => if t.id = id then some curr else lastRun id log
  | .rearmed _ _ :: log => lastRun id log

/-- No reset read the clock as it was before the batch that its timer ran in. -/
def Forward : List Event → Prop
  | [] => True
  | .created _ :: log => Forward log
  | .ran _ _ :: log => Forward log
  | .rearmed t now :: log => (∀ curr ∈ lastRun t.id log, curr ≤ now) ∧ Forward log

/-- Resets were computed without overflow. -/
def Unwrapped (log : List Event) : Prop :=
  ∀ t now, .rearmed t now ∈ log → Fits64 (now + t.interval * 1000000)

/-- The instant is not before the first expiration of the timer and `n` intervals. -/
def Behind (t₀ : Timer) (n : ℕ) (instant : ℤ) : Prop :=
  t₀.expTime + n * (t₀.interval * 1000000) ≤ instant

theorem Behind.trans {t₀ : Timer} {n : ℕ} {x y : ℤ} (h : Behind t₀ n x) (hxy : x ≤ y) :
    Behind t₀ n y := Int.le_trans h hxy

/-- One more run is one interval more. -/
theorem Behind.succ {t₀ : Timer} {n : ℕ} {x : ℤ} (h : Behind t₀ n x) :
    Behind t₀ (n + 1) (x + t₀.interval * 1000000) := by
  unfold Behind at *
  push_cast
  rw [Int.add_mul]
  omega

/-- **How far the timers have come.** -/
structure Paced (L : Ledger) : Prop where
  owned : ∀ t ∈ L.owned, ∀ t₀, .created t₀ ∈ L.log → t₀.id = t.id →
    Behind t₀ (runs t.id L.log) t.expTime
  running : ∀ t ∈ L.running, ∃ curr ∈ lastRun t.id L.log, ∀ t₀, .created t₀ ∈ L.log → t₀.id = t.id →
    Behind t₀ (runs t.id L.log) (curr + t₀.interval * 1000000)
  ran : ∀ post t curr pre, L.log = post ++ .ran t curr :: pre →
    ∀ t₀, .created t₀ ∈ L.log → t₀.id = t.id → Behind t₀ (runs t.id pre) curr

variable {L L' : Ledger}

theorem interval_eq {t₀ t : Timer} (h : Descends t₀ t) : t.interval = t₀.interval := by
  rcases h with rfl | ⟨-, h⟩
  · rfl
  · rw [h]

/-- A timer that is held has the interval it was made with. -/
theorem interval_of_held (hI : L.Inv) {t t₀ : Timer} (ht : t ∈ L.held) (ht₀ : .created t₀ ∈ L.log)
    (hid : t₀.id = t.id) : t.interval = t₀.interval := by
  obtain ⟨t₁, ht₁, hd⟩ := hI.origin t ht
  rw [hI.once t₀ t₁ ht₀ ht₁ (hid.trans hd.id_eq)]
  exact interval_eq hd

/-- An event that is not a run is not where a history is split at a run. -/
theorem split_of_ne {e : Event} {log post pre : List Event} {t : Timer} {curr : ℤ}
    (he : ∀ t c, e ≠ .ran t c) (h : e :: log = post ++ .ran t curr :: pre) :
    ∃ post', log = post' ++ .ran t curr :: pre := by
  cases post with
  | nil => exact absurd (List.cons.inj h).1 (he t curr)
  | cons x post => exact ⟨post, (List.cons.inj h).2⟩

/-! ### Transfers -/

theorem paced_create (hI : L.Inv) (hP : Paced L) {t : Timer} (hid : t.id = L.gId) :
    Paced { L with gId := L.gId + 1, owned := t ::ₘ L.owned, log := .created t :: L.log } := by
  have hold : ∀ u t₀ : Timer, u.id < L.gId → .created t₀ ∈ Event.created t :: L.log → t₀.id = u.id →
      .created t₀ ∈ L.log := fun u t₀ hu ht₀ heq => by
    rcases List.mem_cons.mp ht₀ with h | h
    · cases h
      omega
    · exact h
  constructor
  case owned =>
    intro u hu t₀ ht₀ heq
    show Behind t₀ (runs u.id L.log) u.expTime
    rcases Multiset.mem_cons.mp hu with rfl | hu
    · have hran : ∀ v d, .ran v d ∈ L.log → v.id ≠ u.id := fun v d hv => by
        have := hI.ran_lt hv
        omega
      rcases List.mem_cons.mp ht₀ with h | h
      · cases h
        rw [runs_eq_zero hran]
        unfold Behind
        simp
      · exact absurd (hI.fresh t₀ h) (by omega)
    · exact hP.owned u hu t₀ (hold u t₀ (hI.held_lt (Ledger.mem_held_of_owned hu)) ht₀ heq) heq
  case running =>
    intro u hu
    obtain ⟨curr, hcurr, hb⟩ := hP.running u hu
    have hlt := hI.held_lt (Ledger.mem_held_of_running hu)
    exact ⟨curr, hcurr, fun t₀ ht₀ heq => hb t₀ (hold u t₀ hlt ht₀ heq) heq⟩
  case ran =>
    intro post u curr pre hlog t₀ ht₀ heq
    obtain ⟨post', hlog⟩ := split_of_ne (fun _ _ => Event.noConfusion) hlog
    have hlt : u.id < L.gId := hI.ran_lt (c := curr) (by rw [hlog]; simp)
    exact hP.ran post' u curr pre hlog t₀ (hold u t₀ hlt ht₀ heq) heq

theorem paced_start (hI : L.Inv) (hP : Paced L) {t : Timer} {rest : Multiset Timer} {curr : ℤ}
    (hrun : L.running = none) (howned : L.owned = t ::ₘ rest) (hdue : t.expTime ≤ curr) :
    Paced { L with owned := rest, running := some t, log := .ran t curr :: L.log } := by
  have hcreated : ∀ u, .created u ∈ Event.ran t curr :: L.log ↔ .created u ∈ L.log := fun u => by
    simp
  have hnow : ∀ t₀, .created t₀ ∈ L.log → t₀.id = t.id → Behind t₀ (runs t.id L.log) curr :=
    fun t₀ ht₀ heq =>
      (hP.owned t (howned ▸ Multiset.mem_cons_self t rest) t₀ ht₀ heq).trans hdue
  constructor
  case owned =>
    intro u hu t₀ ht₀ heq
    have hne : t.id ≠ u.id := by
      have hn := hI.nodup
      rw [Ledger.held_of_none hrun, howned, Multiset.map_cons, Multiset.nodup_cons] at hn
      exact fun hid => hn.1 (hid ▸ Multiset.mem_map_of_mem _ hu)
    have hruns : runs u.id (.ran t curr :: L.log) = runs u.id L.log := by
      unfold runs
      rw [List.countP_cons]
      simp [hne]
    show Behind t₀ (runs u.id (.ran t curr :: L.log)) u.expTime
    rw [hruns]
    exact hP.owned u (howned ▸ Multiset.mem_cons_of_mem hu) t₀ ((hcreated t₀).mp ht₀) heq
  case running =>
    intro u hu
    cases hu
    have hruns : runs t.id (.ran t curr :: L.log) = runs t.id L.log + 1 := by
      unfold runs
      rw [List.countP_cons]
      simp
    refine ⟨curr, if_pos rfl, fun t₀ ht₀ heq => ?_⟩
    show Behind t₀ (runs t.id (.ran t curr :: L.log)) _
    rw [hruns]
    exact (hnow t₀ ((hcreated t₀).mp ht₀) heq).succ
  case ran =>
    intro post u d pre hlog t₀ ht₀ heq
    have ht₀ := (hcreated t₀).mp ht₀
    cases post with
    | nil =>
      obtain ⟨he, hpre⟩ := List.cons.inj hlog
      cases he
      rw [← hpre]
      exact hnow t₀ ht₀ heq
    | cons x post => exact hP.ran post u d pre (List.cons.inj hlog).2 t₀ ht₀ heq

theorem paced_rearm (hI : L.Inv) (hP : Paced L) {t : Timer} {now : ℤ} (hrun : L.running = some t)
    (hr : t.isRepeat = true) (hforward : ∀ curr ∈ lastRun t.id L.log, curr ≤ now)
    (hfits : Fits64 (now + t.interval * 1000000)) :
    Paced { L with
      owned := t.reset now ::ₘ L.owned
      running := none
      log := .rearmed (t.reset now) now :: L.log } := by
  have ht := Ledger.mem_held_of_running hrun
  have hreset := t.reset_of_not_canceled now hr (hI.live t ht)
  have hid : (t.reset now).id = t.id := by rw [hreset]
  have hexp : (t.reset now).expTime = now + t.interval * 1000000 := by
    rw [hreset]
    show addMilliseconds now t.interval = _
    rw [addMilliseconds_eq, wrap64_eq hfits]
  have hcreated : ∀ u, .created u ∈ Event.rearmed (t.reset now) now :: L.log ↔ .created u ∈ L.log :=
    fun u => by simp
  constructor
  case owned =>
    intro u hu t₀ ht₀ heq
    have ht₀ := (hcreated t₀).mp ht₀
    show Behind t₀ (runs u.id L.log) u.expTime
    rcases Multiset.mem_cons.mp hu with rfl | hu
    · rw [hid] at heq ⊢
      obtain ⟨curr, hcurr, hb⟩ := hP.running t hrun
      rw [hexp, interval_of_held hI ht ht₀ heq]
      exact (hb t₀ ht₀ heq).trans (by have := hforward curr hcurr; omega)
    · exact hP.owned u hu t₀ ht₀ heq
  case running => exact fun u hu => by cases hu
  case ran =>
    intro post u curr pre hlog t₀ ht₀ heq
    obtain ⟨post', hlog⟩ := split_of_ne (fun _ _ => Event.noConfusion) hlog
    exact hP.ran post' u curr pre hlog t₀ ((hcreated t₀).mp ht₀) heq

/-- **Every transfer** keeps the pace, if its history is forward and unwrapped. -/
theorem Step.paced (h : Ledger.Step L L') (hI : L.Inv) (hP : Paced L) (hforward : Forward L'.log)
    (hfits : Unwrapped L'.log) : Paced L' := by
  cases h with
  | elsewhere n => exact ⟨hP.owned, hP.running, hP.ran⟩
  | create t hid hc => exact paced_create hI hP hid
  | start t rest curr hrun howned hdue => exact paced_start hI hP hrun howned hdue
  | finish t hrun hr => exact ⟨hP.owned, fun u hu => (by cases hu), hP.ran⟩
  | rearm t now hrun hr =>
    obtain ⟨hid, -, -, hinterval, -⟩ := t.reset_frame now
    refine paced_rearm hI hP hrun hr (hid ▸ hforward.1) ?_
    have hf := hfits (t.reset now) now List.mem_cons_self
    rwa [hinterval] at hf

theorem Forward.of_append : ∀ {new log : List Event}, Forward (new ++ log) → Forward log
  | [], _, h => h
  | .created _ :: new, _, h | .ran _ _ :: new, _, h => @Forward.of_append new _ h
  | .rearmed _ _ :: new, _, h => @Forward.of_append new _ h.2

theorem Unwrapped.of_append {new log : List Event} (h : Unwrapped (new ++ log)) : Unwrapped log :=
  fun t now ht => h t now (List.mem_append_right new ht)

/-- Histories and ids only grow. -/
theorem Step.grows (h : Ledger.Step L L') : (∃ new, L'.log = new ++ L.log) ∧ L.gId ≤ L'.gId := by
  cases h with
  | elsewhere n => exact ⟨⟨[], rfl⟩, Nat.le_add_right _ n⟩
  | create t => exact ⟨⟨[.created t], rfl⟩, Nat.le_succ _⟩
  | start t rest curr => exact ⟨⟨[.ran t curr], rfl⟩, Nat.le_refl _⟩
  | finish => exact ⟨⟨[], rfl⟩, Nat.le_refl _⟩
  | rearm t now => exact ⟨⟨[.rearmed (t.reset now) now], rfl⟩, Nat.le_refl _⟩

theorem Steps.grows (h : ReflTransGen Ledger.Step L L') :
    (∃ new, L'.log = new ++ L.log) ∧ L.gId ≤ L'.gId := by
  induction h with
  | refl => exact ⟨⟨[], rfl⟩, Nat.le_refl _⟩
  | tail _ hstep ih =>
    obtain ⟨⟨new, hlog⟩, hgId⟩ := ih
    obtain ⟨⟨new', hlog'⟩, hgId'⟩ := Step.grows hstep
    exact ⟨⟨new' ++ new, by rw [hlog', hlog, List.append_assoc]⟩, hgId.trans hgId'⟩

theorem Steps.paced (h : ReflTransGen Ledger.Step L L') (hI : L.Inv) (hP : Paced L)
    (hforward : Forward L'.log) (hfits : Unwrapped L'.log) : Paced L' := by
  induction h with
  | refl => exact hP
  | tail hsteps hstep ih =>
    obtain ⟨⟨new, hlog⟩, -⟩ := Step.grows hstep
    rw [hlog] at hforward hfits
    have hM := ih hforward.of_append hfits.of_append
    rw [← hlog] at hforward hfits
    exact Step.paced hstep (Steps.inv hsteps hI) hM hforward hfits

/-! ### Batches -/

/-- In a batch the clock is not set back. -/
def Op.Forward : Op → Prop
  | .act _ => True
  | .exec curr calls => ∀ i, curr ≤ (calls i).now

variable {s s' : EventLoop}

theorem lastRun_created (id : ℕ) (log : List Event) : ∀ new : List Timer,
    lastRun id (new.map .created ++ log) = lastRun id log
  | [] => rfl
  | _ :: new => lastRun_created id log new

theorem forward_created {log : List Event} (h : Forward log) : ∀ new : List Timer,
    Forward (new.map .created ++ log)
  | [] => h
  | _ :: new => forward_created h new

/-- The run of a timer. -/
theorem run_forward {t : Timer} {curr : ℤ} {acts : List Act} (hF : Forward s.log)
    (hacts : ∀ a ∈ acts, Act.Registers a) (he : { s with log := .ran t curr :: s.log }.run t acts = .ok s') :
    Forward s'.log ∧ lastRun t.id s'.log = some curr ∧ s'.expirationTimers = s.expirationTimers := by
  unfold EventLoop.run at he
  split_ifs at he
  · obtain ⟨s₁, he₁, hg⟩ := actAll_grows { s with log := .ran t curr :: s.log } hacts
    cases he₁.symm.trans he
    rw [hg.log, lastRun_created]
    exact ⟨@forward_created (.ran t curr :: s.log) hF _, if_pos rfl, hg.slots⟩
  · cases he
    exact ⟨hF, if_pos rfl, rfl⟩

/-- What follows the run. -/
theorem settle_forward {t : Timer} {rest : List Timer} {curr now : ℤ} (hs : s.expirationTimers = t :: rest)
    (hF : Forward s.log) (hlast : lastRun t.id s.log = some curr) (hnow : curr ≤ now)
    (he : s.settle now = .ok s') : Forward s'.log ∧ s'.expirationTimers = rest := by
  unfold EventLoop.settle at he
  rw [hs] at he
  dsimp only at he
  split_ifs at he
  · obtain ⟨q, -, hq⟩ := bind_eq_ok.mp he
    cases hq
    refine ⟨⟨fun c hc => ?_, hF⟩, rfl⟩
    obtain ⟨hid, -⟩ := t.reset_frame now
    rw [hid, hlast] at hc
    cases hc
    exact hnow
  · cases he
    exact ⟨hF, rfl⟩

/-- **The loop over the batch**, by induction over its slots. -/
theorem visitAll_forward {curr : ℤ} {calls : ℕ → Call} (hcalls : ∀ i, ∀ a ∈ (calls i).acts, Act.Registers a)
    (hnow : ∀ i, curr ≤ (calls i).now) : ∀ (todo : List Timer) (i : ℕ) {s : EventLoop},
      s.expirationTimers = todo → Forward s.log →
        EventLoop.visitAll curr calls todo.length i s = .ok s' → Forward s'.log
  | [], _, s, _, hF, he => by
    cases he
    exact hF
  | t :: rest, i, s, hs, hF, he => by
    obtain ⟨s₂, hvisit, he⟩ := bind_eq_ok.mp he
    rw [EventLoop.visit_cons hs] at hvisit
    obtain ⟨s₁, hrun, hsettle⟩ := bind_eq_ok.mp hvisit
    obtain ⟨hF₁, hlast, hs₁⟩ := run_forward hF (hcalls i) hrun
    obtain ⟨hF₂, hs₂⟩ := settle_forward (hs₁.trans hs) hF₁ hlast (hnow i) hsettle
    exact visitAll_forward hcalls hnow rest (i + 1) hs₂ hF₂ he

theorem step_forward (hF : Forward s.log) {op : Op} (hop : Op.Registers op)
    (hforward : Op.Forward op) {o : Unit} (he : step s op = .ok (s', o)) : Forward s'.log := by
  cases op with
  | act a =>
    obtain ⟨s₁, he₁, hg⟩ := @actAll_grows s [a] fun b hb => by
      rw [List.mem_singleton.mp hb]
      exact hop
    obtain ⟨s₂, hact, he⟩ := bind_eq_ok.mp he
    cases he
    rw [EventLoop.actAll, hact] at he₁
    cases he₁
    exact hg.log ▸ forward_created hF _
  | exec curr calls =>
    obtain ⟨s₁, hexec, he⟩ := bind_eq_ok.mp he
    cases he
    obtain ⟨s₂, hvisit, hexec⟩ := bind_eq_ok.mp hexec
    cases hexec
    have hF₂ : Forward s₂.log :=
      visitAll_forward hop hforward (s.getExpiredTimes curr).expirationTimers 0 rfl hF hvisit
    exact hF₂

/-! ### Runs -/

theorem paced_init (gId : ℕ) : Paced (ledger (init gId) [] none) where
  owned := by simp [ledger, init, Chaining.Base.Ordered.OrderedList.empty]
  running := by simp [ledger]
  ran := by simp [ledger, init]

/-- A loop between two iterations whose timers are accounted for. -/
structure Sound (s : EventLoop) : Prop where
  between : Between s
  inv : (ledger s [] none).Inv
  inOrder : InOrder s.log
  forward : Forward s.log
  paced : Unwrapped s.log → Paced (ledger s [] none)

theorem sound_init (gId : ℕ) : Sound (init gId) where
  between := ⟨rfl, rfl⟩
  inv := inv_init gId
  inOrder post t c pre hlog := by simp [init] at hlog
  forward := trivial
  paced _ := paced_init gId

/-- **One step** succeeds and keeps the account; ids and the history only grow. -/
theorem Sound.step (h : Sound s) {op : Op} (hop : Op.Registers op) (hforward : Op.Forward op) :
    ∃ s', step s op = .ok (s', ()) ∧ Sound s' ∧ s.gId ≤ s'.gId ∧ ∃ new, s'.log = new ++ s.log := by
  obtain ⟨s', he, hs', hsteps⟩ := step_books h.between h.inv hop
  have hF := step_forward h.forward hop hforward he
  obtain ⟨⟨new, hlog⟩, hgId⟩ := Steps.grows hsteps
  change s'.log = new ++ s.log at hlog
  have hO := step_inOrder h.between h.inv h.inOrder hop he
  refine ⟨s', he, ⟨hs', Steps.inv hsteps h.inv, hO, hF, fun hfits => ?_⟩, hgId, new, hlog⟩
  have hfits' : Unwrapped s.log := (hlog ▸ hfits).of_append
  exact Steps.paced hsteps h.inv (h.paced hfits') hF hfits

/-- **Repeating timers keep their distance.** In every run of registrations and batches in which no
batch sees the clock set back, and no reset overflows, the `n + 1`-th run of a timer is in a batch
whose reading is at least the timer's first expiration and `n` intervals. -/
theorem runs_paced (gId : ℕ) {ops : List Op} (h : ∀ op ∈ ops, Op.Registers op ∧ Op.Forward op) :
    ∃ os s, Run step (init gId) ops os s ∧ (Unwrapped s.log →
      ∀ t₀, .created t₀ ∈ s.log → ∀ post t curr pre, s.log = post ++ .ran t curr :: pre →
        t.id = t₀.id → Behind t₀ (runs t₀.id pre) curr) := by
  have hstep : ∀ s op, Sound s → Op.Registers op ∧ Op.Forward op →
      ∃ s' o, Batch.step s op = .ok (s', o) ∧ Sound s' := by
    rintro s op hs ⟨hop, hforward⟩
    obtain ⟨s', he, hs', -⟩ := hs.step hop hforward
    exact ⟨s', (), he, hs'⟩
  obtain ⟨os, s, hrun, hs⟩ := exists_run hstep (sound_init gId) (along_of_forall _ h)
  refine ⟨os, s, hrun, fun hfits t₀ ht₀ post t curr pre hlog hid => ?_⟩
  have hb := (hs.paced hfits).ran post t curr pre hlog t₀ ht₀ hid.symm
  rwa [hid] at hb

/-- A repeating timer that runs late twice. -/
def lateTwice : List Op :=
  [.act (.register (.runEvery true 10 0)), .exec 18000000 fun _ => ⟨[], 19000000⟩,
    .exec 40000000 fun _ => ⟨[], 41000000⟩]

theorem runs_paced_late :
    (∀ op ∈ lateTwice, Op.Registers op ∧ Op.Forward op) ∧
      ∃ os s, Run step (init 0) lateTwice os s ∧ (Unwrapped s.log →
        ∀ t₀, .created t₀ ∈ s.log → ∀ post t curr pre, s.log = post ++ .ran t curr :: pre →
          t.id = t₀.id → Behind t₀ (runs t₀.id pre) curr) := by
  have h : ∀ op ∈ lateTwice, Op.Registers op ∧ Op.Forward op := by
    simp [lateTwice, Op.Registers, Op.Forward, Act.Registers]
  exact ⟨h, runs_paced 0 h⟩

end Chaining.Time.Pace
