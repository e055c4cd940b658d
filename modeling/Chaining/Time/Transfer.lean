import Chaining.Time.Batch
import Mathlib.Data.Multiset.Count
import Mathlib.Data.Multiset.MapFold

/-! # The ledger of timers

What the timer queue and the loop's batches are for, without their containers: a timer that was made
is owned until it is run, while it runs it is nobody's, and a repeating one is then owned again with a
new expiration. `Step` is one such transfer. Who owns a timer, and in which order, is left open; the
history is kept.

`Inv` says how the owned timers follow from the history: each is as it was made and has not run, or
has been re-armed once since it ran. From that the runs are not early, consecutive runs of one timer
are apart by its interval (`Spaced`), and no timer is lost or doubled (`Step.inv`). -/

namespace Chaining.Time.Transfer

open Chaining.Time.Defs Chaining.Time.Batch

/-! ### Histories -/

/-- How often a timer was run. -/
def runs (id : ℕ) (log : List Event) : ℕ :=
  log.countP fun
    | .ran t _ => t.id = id
    | _ => false

/-- The readings of a timer's resets, the latest first. -/
def resets (id : ℕ) (log : List Event) : List ℤ :=
  log.filterMap fun
    | .rearmed t now => if t.id = id then some now else none
    | _ => none

/-- The readings of a timer's resets since its latest run, if it has run. -/
def sinceRun (id : ℕ) : List Event → Option (List ℤ)
  | [] => none
  | .created _ :: log => sinceRun id log
  | .ran t _ :: log => if t.id = id then some [] else sinceRun id log
  | .rearmed t now :: log =>
    if t.id = id then (sinceRun id log).map (now :: ·) else sinceRun id log

/-- Between two consecutive runs of one timer there is one reset, and the later batch is not before
that reset's reading plus the interval. -/
def Spaced (log : List Event) : Prop :=
  ∀ post t' c' mid t c pre, log = post ++ .ran t' c' :: mid ++ .ran t c :: pre → t'.id = t.id →
    (∀ u d, .ran u d ∈ mid → u.id ≠ t.id) →
      ∃ r, resets t.id mid = [r] ∧ addMilliseconds r t'.interval ≤ c'

/-- The timer as it was made, or a repeating one with another expiration. -/
def Descends (t₀ t : Timer) : Prop :=
  t = t₀ ∨ t₀.isRepeat = true ∧ t = { t₀ with expTime := t.expTime }

namespace Descends

variable {t₀ t : Timer}

theorem id_eq (h : Descends t₀ t) : t.id = t₀.id := by
  rcases h with rfl | ⟨-, h⟩
  · rfl
  · rw [h]

theorem isRepeat_eq (h : Descends t₀ t) : t.isRepeat = t₀.isRepeat := by
  rcases h with rfl | ⟨-, h⟩
  · rfl
  · rw [h]

theorem rearmed (h : Descends t₀ t) (hr : t.isRepeat = true) (e : ℤ) :
    Descends t₀ { t with expTime := e } := by
  refine Or.inr ⟨h.isRepeat_eq ▸ hr, ?_⟩
  rcases h with rfl | ⟨-, h⟩
  · rfl
  · rw [h]

end Descends

theorem sinceRun_split {id : ℕ} {t : Timer} {c : ℤ} {pre : List Event} (ht : t.id = id) :
    ∀ {mid : List Event}, (∀ u d, .ran u d ∈ mid → u.id ≠ id) →
      sinceRun id (mid ++ .ran t c :: pre) = some (resets id mid)
  | [], _ => if_pos ht
  | e :: mid, hmid => by
    have ih : sinceRun id (mid ++ .ran t c :: pre) = some (resets id mid) :=
      sinceRun_split ht fun u d hu => hmid u d (List.mem_cons_of_mem e hu)
    cases e with
    | created u => exact ih
    | ran u d => exact (if_neg (hmid u d List.mem_cons_self)).trans ih
    | rearmed u now =>
      show (if u.id = id then (sinceRun id (mid ++ _)).map (now :: ·) else sinceRun id (mid ++ _)) = _
      rw [ih]
      by_cases hu : u.id = id <;> simp [resets, hu]

theorem sinceRun_eq_none {id : ℕ} : ∀ {log : List Event}, (∀ u d, .ran u d ∈ log → u.id ≠ id) →
    sinceRun id log = none
  | [], _ => rfl
  | e :: log, hlog => by
    have ih := sinceRun_eq_none fun u d hu => hlog u d (List.mem_cons_of_mem e hu)
    cases e with
    | created u => exact ih
    | ran u d => exact (if_neg (hlog u d List.mem_cons_self)).trans ih
    | rearmed u now =>
      show (if u.id = id then (sinceRun id log).map (now :: ·) else sinceRun id log) = none
      rw [ih]
      split_ifs <;> rfl

theorem runs_eq_zero {id : ℕ} {log : List Event} (h : ∀ u d, .ran u d ∈ log → u.id ≠ id) :
    runs id log = 0 := by
  unfold runs
  rw [List.countP_eq_zero]
  intro e he
  cases e with
  | ran u d => simpa using h u d he
  | created u => simp
  | rearmed u now => simp

/-- An event other than a run keeps the spacing. -/
theorem Spaced.cons {log : List Event} {e : Event} (h : Spaced log) (he : ∀ t c, e ≠ .ran t c) :
    Spaced (e :: log) := by
  rintro (_ | ⟨x, post⟩) t' c' mid t c pre heq
  · exact absurd (List.cons.inj heq).1 (he t' c')
  · exact h post t' c' mid t c pre (List.cons.inj heq).2

/-- A run keeps the spacing if the timer was re-armed since its latest run, and is due. -/
theorem Spaced.ran {log : List Event} {t : Timer} {c : ℤ} (h : Spaced log)
    (ht : ∀ rs, sinceRun t.id log = some rs →
      ∃ r, rs = [r] ∧ addMilliseconds r t.interval ≤ c) : Spaced (.ran t c :: log) := by
  rintro (_ | ⟨x, post⟩) t' c' mid u d pre heq hid hmid
  · obtain ⟨he, hlog⟩ := List.cons.inj heq
    cases he
    subst hlog
    rw [hid] at ht
    exact ht _ (sinceRun_split rfl hmid)
  · exact h post t' c' mid u d pre (List.cons.inj heq).2 hid hmid

/-! ### The ledger -/

/-- The owned timers and the one that is being run. -/
structure Ledger where
  gId : ℕ
  owned : Multiset Timer
  running : Option Timer
  log : List Event

namespace Ledger

variable (L : Ledger)

/-- All timers there are. -/
def held : Multiset Timer := (L.running.toList : Multiset Timer) + L.owned

/-- How often a timer is owned. -/
def times (id : ℕ) (m : Multiset Timer) : ℕ := (m.map Timer.id).count id

/-- The owned timer follows from the history. -/
def Armed (t : Timer) : Prop :=
  sinceRun t.id L.log = none ∧ .created t ∈ L.log ∨
    ∃ r, t.isRepeat = true ∧ sinceRun t.id L.log = some [r] ∧ t.expTime = addMilliseconds r t.interval

/-- One transfer. -/
inductive Step : Ledger → Ledger → Prop
  | elsewhere (L : Ledger) (n : ℕ) : Step L { L with gId := L.gId + n }
  | create (L : Ledger) (t : Timer) (hid : t.id = L.gId) (hc : t.canceled = false) :
      Step L { L with gId := L.gId + 1, owned := t ::ₘ L.owned, log := .created t :: L.log }
  | start (L : Ledger) (t : Timer) (rest : Multiset Timer) (curr : ℤ) (hrun : L.running = none)
      (howned : L.owned = t ::ₘ rest) (hdue : t.expTime ≤ curr) :
      Step L { L with owned := rest, running := some t, log := .ran t curr :: L.log }
  | finish (L : Ledger) (t : Timer) (hrun : L.running = some t) (hr : t.isRepeat = false) :
      Step L { L with running := none }
  | rearm (L : Ledger) (t : Timer) (now : ℤ) (hrun : L.running = some t) (hr : t.isRepeat = true) :
      Step L { L with
        owned := t.reset now ::ₘ L.owned
        running := none
        log := .rearmed (t.reset now) now :: L.log }

/-- **The invariant.** -/
structure Inv : Prop where
  fresh : ∀ t, .created t ∈ L.log → t.id < L.gId
  once : ∀ t u, .created t ∈ L.log → .created u ∈ L.log → t.id = u.id → t = u
  live : ∀ t ∈ L.held, t.canceled = false
  origin : ∀ t ∈ L.held, ∃ t₀, .created t₀ ∈ L.log ∧ Descends t₀ t
  nodup : (L.held.map Timer.id).Nodup
  armed : ∀ t ∈ L.owned, L.Armed t
  started : ∀ t ∈ L.running, sinceRun t.id L.log = some []
  ranOrigin : ∀ t c, .ran t c ∈ L.log → ∃ t₀, .created t₀ ∈ L.log ∧ Descends t₀ t
  early : ∀ t c, .ran t c ∈ L.log → t.expTime ≤ c
  spaced : Spaced L.log
  oneShot : ∀ t, .created t ∈ L.log → t.isRepeat = false →
    runs t.id L.log + times t.id L.owned = 1
  repeating : ∀ t, .created t ∈ L.log → t.isRepeat = true → times t.id L.held = 1

variable {L : Ledger}

theorem times_cons (id : ℕ) (t : Timer) (m : Multiset Timer) :
    times id (t ::ₘ m) = times id m + if id = t.id then 1 else 0 := by
  unfold times
  rw [Multiset.map_cons, Multiset.count_cons]

theorem times_eq_zero {id : ℕ} {m : Multiset Timer} (h : ∀ t ∈ m, t.id ≠ id) : times id m = 0 := by
  unfold times
  rw [Multiset.count_eq_zero, Multiset.mem_map]
  rintro ⟨t, ht, hid⟩
  exact h t ht hid

theorem held_of_none (h : L.running = none) : L.held = L.owned := by
  simp [held, h]

theorem held_of_some {t : Timer} (h : L.running = some t) : L.held = t ::ₘ L.owned := by
  simp [held, h]

theorem held_create (t : Timer) (gId : ℕ) (log : List Event) :
    held ⟨gId, t ::ₘ L.owned, L.running, log⟩ = t ::ₘ L.held :=
  Multiset.add_cons t _ _

theorem mem_held_of_owned {t : Timer} (h : t ∈ L.owned) : t ∈ L.held :=
  Multiset.mem_add.mpr (Or.inr h)

theorem mem_held_of_running {t : Timer} (h : t ∈ L.running) : t ∈ L.held := by
  rw [held_of_some h]
  exact Multiset.mem_cons_self t _

/-- What a timer descends from stays in the history. -/
theorem origin_cons {t : Timer} {log : List Event} (e : Event)
    (h : ∃ t₀, .created t₀ ∈ log ∧ Descends t₀ t) :
    ∃ t₀, .created t₀ ∈ e :: log ∧ Descends t₀ t := by
  obtain ⟨t₀, ht₀, hd⟩ := h
  exact ⟨t₀, List.mem_cons_of_mem e ht₀, hd⟩

/-- A timer stays armed when something happens to another. -/
theorem Armed.cons {L' : Ledger} {t : Timer} {e : Event} (h : L.Armed t) (hlog : L'.log = e :: L.log)
    (hs : sinceRun t.id (e :: L.log) = sinceRun t.id L.log) : L'.Armed t := by
  unfold Armed
  rw [hlog, hs]
  rcases h with ⟨hn, hc⟩ | hr
  · exact Or.inl ⟨hn, List.mem_cons_of_mem e hc⟩
  · exact Or.inr hr

namespace Inv

theorem held_lt (h : L.Inv) {t : Timer} (ht : t ∈ L.held) : t.id < L.gId := by
  obtain ⟨t₀, hc, hd⟩ := h.origin t ht
  rw [hd.id_eq]
  exact h.fresh t₀ hc

theorem ran_lt (h : L.Inv) {t : Timer} {c : ℤ} (ht : .ran t c ∈ L.log) : t.id < L.gId := by
  obtain ⟨t₀, hc, hd⟩ := h.ranOrigin t c ht
  rw [hd.id_eq]
  exact h.fresh t₀ hc

/-- A timer that was made and one that is held agree, if they have one id. -/
theorem isRepeat_eq (h : L.Inv) {t u : Timer} (ht : t ∈ L.held) (hu : .created u ∈ L.log)
    (hid : u.id = t.id) : t.isRepeat = u.isRepeat := by
  obtain ⟨t₀, hc, hd⟩ := h.origin t ht
  have heq := h.once u t₀ hu hc (hid.trans hd.id_eq)
  rw [hd.isRepeat_eq, heq]

/-- The running timer is nobody's. -/
theorem running_id_ne (h : L.Inv) {t u : Timer} (hrun : L.running = some t) (hu : u ∈ L.owned) :
    t.id ≠ u.id := by
  have hn := h.nodup
  rw [held_of_some hrun, Multiset.map_cons, Multiset.nodup_cons] at hn
  exact fun hid => hn.1 (hid ▸ Multiset.mem_map_of_mem _ hu)

theorem elsewhere (h : L.Inv) (n : ℕ) : Inv { L with gId := L.gId + n } where
  fresh t ht := (h.fresh t ht).trans_le (Nat.le_add_right _ n)
  once := h.once
  live := h.live
  origin := h.origin
  nodup := h.nodup
  armed := h.armed
  started := h.started
  ranOrigin := h.ranOrigin
  early := h.early
  spaced := h.spaced
  oneShot := h.oneShot
  repeating := h.repeating

theorem create (h : L.Inv) {t : Timer} (hid : t.id = L.gId) (hc : t.canceled = false) :
    Inv { L with gId := L.gId + 1, owned := t ::ₘ L.owned, log := .created t :: L.log } := by
  have hnew : ∀ u, .created u ∈ L.log → u.id ≠ t.id := fun u hu => by
    have := h.fresh u hu
    omega
  have hheld : ∀ u ∈ L.held, u.id ≠ t.id := fun u hu => by
    have := h.held_lt hu
    omega
  have hran : ∀ u d, .ran u d ∈ L.log → u.id ≠ t.id := fun u d hu => by
    have := h.ran_lt hu
    omega
  have hcreated : ∀ u, .created u ∈ Event.created t :: L.log ↔ u = t ∨ .created u ∈ L.log :=
    fun u => by rw [List.mem_cons, Event.created.injEq]
  have hold : ∀ u d, .ran u d ∈ Event.created t :: L.log → .ran u d ∈ L.log := fun u d hu => by
    simpa using hu
  constructor
  case fresh =>
    intro u hu
    rcases (hcreated u).mp hu with rfl | hu
    · exact hid ▸ Nat.lt_succ_self _
    · exact Nat.lt_succ_of_lt (h.fresh u hu)
  case once =>
    intro u v hu hv huv
    rcases (hcreated u).mp hu with hut | hu' <;> rcases (hcreated v).mp hv with hvt | hv'
    · exact hut.trans hvt.symm
    · exact absurd (huv.symm.trans (congrArg Timer.id hut)) (hnew v hv')
    · exact absurd (huv.trans (congrArg Timer.id hvt)) (hnew u hu')
    · exact h.once u v hu' hv' huv
  case live =>
    rw [held_create]
    intro u hu
    rcases Multiset.mem_cons.mp hu with rfl | hu
    · exact hc
    · exact h.live u hu
  case origin =>
    rw [held_create]
    intro u hu
    rcases Multiset.mem_cons.mp hu with rfl | hu
    · exact ⟨u, List.mem_cons_self, Or.inl rfl⟩
    · exact origin_cons _ (h.origin u hu)
  case nodup =>
    rw [held_create, Multiset.map_cons, Multiset.nodup_cons]
    refine ⟨fun hmem => ?_, h.nodup⟩
    obtain ⟨u, hu, hut⟩ := Multiset.mem_map.mp hmem
    exact hheld u hu hut
  case armed =>
    intro u hu
    rcases Multiset.mem_cons.mp hu with rfl | hu
    · have hs : sinceRun u.id L.log = none := sinceRun_eq_none hran
      exact Or.inl ⟨hs, List.mem_cons_self⟩
    · exact (h.armed u hu).cons rfl rfl
  case started => exact h.started
  case ranOrigin => exact fun u d hu => origin_cons _ (h.ranOrigin u d (hold u d hu))
  case early => exact fun u d hu => h.early u d (hold u d hu)
  case spaced => exact h.spaced.cons fun _ _ => Event.noConfusion
  case oneShot =>
    intro u hu hr
    rw [times_cons]
    show runs u.id L.log + _ = 1
    rcases (hcreated u).mp hu with rfl | hu
    · rw [runs_eq_zero hran, times_eq_zero fun v hv => hheld v (mem_held_of_owned hv), if_pos rfl]
    · rw [if_neg (hnew u hu)]
      exact h.oneShot u hu hr
  case repeating =>
    intro u hu hr
    rw [held_create, times_cons]
    rcases (hcreated u).mp hu with rfl | hu
    · rw [times_eq_zero hheld, if_pos rfl]
    · rw [if_neg (hnew u hu)]
      exact h.repeating u hu hr

theorem start (h : L.Inv) {t : Timer} {rest : Multiset Timer} {curr : ℤ} (hrun : L.running = none)
    (howned : L.owned = t ::ₘ rest) (hdue : t.expTime ≤ curr) :
    Inv { L with owned := rest, running := some t, log := .ran t curr :: L.log } := by
  have hheld : held { L with owned := rest, running := some t, log := .ran t curr :: L.log } =
      L.held := by
    rw [held_of_none hrun, howned, held_of_some rfl]
  have ht : t ∈ L.owned := howned ▸ Multiset.mem_cons_self t rest
  have hrest : ∀ u ∈ rest, t.id ≠ u.id := fun u hu hid => by
    have hn := h.nodup
    rw [held_of_none hrun, howned, Multiset.map_cons, Multiset.nodup_cons] at hn
    exact hn.1 (hid ▸ Multiset.mem_map_of_mem _ hu)
  have hcreated : ∀ u, .created u ∈ Event.ran t curr :: L.log ↔ .created u ∈ L.log := fun u => by
    simp
  constructor
  case fresh => exact fun u hu => h.fresh u ((hcreated u).mp hu)
  case once => exact fun u v hu hv => h.once u v ((hcreated u).mp hu) ((hcreated v).mp hv)
  case live =>
    rw [hheld]
    exact h.live
  case origin =>
    rw [hheld]
    exact fun u hu => origin_cons _ (h.origin u hu)
  case nodup =>
    rw [hheld]
    exact h.nodup
  case armed =>
    intro u hu
    have hs : sinceRun u.id (.ran t curr :: L.log) = sinceRun u.id L.log := if_neg (hrest u hu)
    exact (h.armed u (howned ▸ Multiset.mem_cons_of_mem hu)).cons rfl hs
  case started =>
    intro u hu
    cases hu
    exact if_pos rfl
  case ranOrigin =>
    intro u d hu
    rcases List.mem_cons.mp hu with he | hu
    · cases he
      exact origin_cons _ (h.origin t (mem_held_of_owned ht))
    · exact origin_cons _ (h.ranOrigin u d hu)
  case early =>
    intro u d hu
    rcases List.mem_cons.mp hu with he | hu
    · cases he
      exact hdue
    · exact h.early u d hu
  case spaced =>
    refine h.spaced.ran fun rs hs => ?_
    rcases h.armed t ht with ⟨hn, -⟩ | ⟨r, -, hr, he⟩
    · rw [hn] at hs
      cases hs
    · rw [hr] at hs
      cases hs
      exact ⟨r, rfl, he ▸ hdue⟩
  case oneShot =>
    intro u hu hr
    have hone := h.oneShot u ((hcreated u).mp hu) hr
    rw [howned, times_cons] at hone
    have hruns : runs u.id (.ran t curr :: L.log) = runs u.id L.log + if u.id = t.id then 1 else 0 := by
      unfold runs
      rw [List.countP_cons]
      simp [eq_comm]
    show runs u.id (.ran t curr :: L.log) + times u.id rest = 1
    omega
  case repeating =>
    rw [hheld]
    exact fun u hu => h.repeating u ((hcreated u).mp hu)

theorem finish (h : L.Inv) {t : Timer} (hrun : L.running = some t) (hr : t.isRepeat = false) :
    Inv { L with running := none } := by
  have hheld : L.held = t ::ₘ held { L with running := none } := by
    rw [held_of_some hrun, held_of_none rfl]
  have hsub : ∀ u ∈ held { L with running := none }, u ∈ L.held := fun u hu =>
    hheld ▸ Multiset.mem_cons_of_mem hu
  constructor
  case fresh => exact h.fresh
  case once => exact h.once
  case live => exact fun u hu => h.live u (hsub u hu)
  case origin => exact fun u hu => h.origin u (hsub u hu)
  case nodup =>
    have hn := h.nodup
    rw [hheld, Multiset.map_cons, Multiset.nodup_cons] at hn
    exact hn.2
  case armed => exact h.armed
  case started => exact fun u hu => by cases hu
  case ranOrigin => exact h.ranOrigin
  case early => exact h.early
  case spaced => exact h.spaced
  case oneShot => exact h.oneShot
  case repeating =>
    intro u hu hur
    have hrep := h.repeating u hu hur
    rw [hheld, times_cons, if_neg ?_] at hrep
    · exact hrep
    · intro hid
      have heq := h.isRepeat_eq (mem_held_of_running hrun) hu hid
      rw [hr, hur] at heq
      cases heq

theorem rearm (h : L.Inv) {t : Timer} (now : ℤ) (hrun : L.running = some t)
    (hr : t.isRepeat = true) :
    Inv { L with
      owned := t.reset now ::ₘ L.owned
      running := none
      log := .rearmed (t.reset now) now :: L.log } := by
  have ht := mem_held_of_running hrun
  have hreset := t.reset_of_not_canceled now hr (h.live t ht)
  have hid : (t.reset now).id = t.id := by rw [hreset]
  have hheld : held { L with
      owned := t.reset now ::ₘ L.owned
      running := none
      log := .rearmed (t.reset now) now :: L.log } = t.reset now ::ₘ L.owned := held_of_none rfl
  have hcreated : ∀ u, .created u ∈ Event.rearmed (t.reset now) now :: L.log ↔ .created u ∈ L.log :=
    fun u => by simp
  have hran : ∀ u d, .ran u d ∈ Event.rearmed (t.reset now) now :: L.log ↔ .ran u d ∈ L.log :=
    fun u d => by simp
  constructor
  case fresh => exact fun u hu => h.fresh u ((hcreated u).mp hu)
  case once => exact fun u v hu hv => h.once u v ((hcreated u).mp hu) ((hcreated v).mp hv)
  case live =>
    rw [hheld]
    intro u hu
    rcases Multiset.mem_cons.mp hu with rfl | hu
    · rw [hreset]
      exact h.live t ht
    · exact h.live u (mem_held_of_owned hu)
  case origin =>
    rw [hheld]
    intro u hu
    rcases Multiset.mem_cons.mp hu with rfl | hu
    · obtain ⟨t₀, ht₀, hd⟩ := h.origin t ht
      exact ⟨t₀, List.mem_cons_of_mem _ ht₀, hreset ▸ hd.rearmed hr _⟩
    · exact origin_cons _ (h.origin u (mem_held_of_owned hu))
  case nodup =>
    have hn := h.nodup
    rw [held_of_some hrun, Multiset.map_cons] at hn
    rw [hheld, Multiset.map_cons, hid]
    exact hn
  case armed =>
    intro u hu
    rcases Multiset.mem_cons.mp hu with rfl | hu
    · have hs : sinceRun (t.reset now).id (.rearmed (t.reset now) now :: L.log) = some [now] := by
        rw [hid]
        exact (if_pos hid).trans (by rw [h.started t hrun]; rfl)
      exact Or.inr ⟨now, by rw [hreset]; exact hr, hs, by rw [hreset]⟩
    · have hne : (t.reset now).id ≠ u.id := hid ▸ h.running_id_ne hrun hu
      have hs : sinceRun u.id (.rearmed (t.reset now) now :: L.log) = sinceRun u.id L.log :=
        if_neg hne
      exact (h.armed u hu).cons rfl hs
  case started => exact fun u hu => by cases hu
  case ranOrigin => exact fun u d hu => origin_cons _ (h.ranOrigin u d ((hran u d).mp hu))
  case early => exact fun u d hu => h.early u d ((hran u d).mp hu)
  case spaced => exact h.spaced.cons fun _ _ => Event.noConfusion
  case oneShot =>
    intro u hu hur
    have hu := (hcreated u).mp hu
    have hone := h.oneShot u hu hur
    rw [times_cons, hid, if_neg ?_]
    · exact hone
    · intro hidu
      have heq := h.isRepeat_eq ht hu hidu
      rw [hr, hur] at heq
      cases heq
  case repeating =>
    intro u hu hur
    have hrep := h.repeating u ((hcreated u).mp hu) hur
    rw [held_of_some hrun, times_cons] at hrep
    rw [hheld, times_cons, hid]
    exact hrep

end Inv

/-- **Every transfer keeps the invariant.** -/
theorem Step.inv {L L' : Ledger} (h : Step L L') (hI : L.Inv) : L'.Inv := by
  cases h with
  | elsewhere n => exact hI.elsewhere n
  | create t hid hc => exact hI.create hid hc
  | start t rest curr hrun howned hdue => exact hI.start hrun howned hdue
  | finish t hrun hr => exact hI.finish hrun hr
  | rearm t now hrun hr => exact hI.rearm now hrun hr

end Ledger

end Chaining.Time.Transfer
