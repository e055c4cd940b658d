import Chaining.Base.Runs
import Chaining.Poll.Epoller

/-! # Descriptors that are closed under their channels

A channel does not own its descriptor. A wake-up closes its own before its channel is destroyed, and
whoever takes a connection may close it at any time; its number is then free for the next file, and for
the channel of that. When a descriptor is closed the kernel drops it from the interest list, and the
poller keeps it in its map: the calls of `epoll_ctl` for it fail from then on, also those for a channel
of the next file of that number, until a channel of the number is destroyed.

Here channels may be made for any descriptors, also several for one, and descriptors are closed and
opened at any time. `closed_safe` says what remains: no `assert` of the poller fails, neither map holds
a channel that was destroyed, and the calls of `epoll_ctl` that fail are those for a descriptor that is
not open, or that came into the map when it was not open, or was closed since. No descriptor is
duplicated. -/

namespace Chaining.Poll.Closed

open Chaining.Base.Runs Chaining.Outcome Chaining.Poll.Events Chaining.Poll.Epoller

variable {κ : Type*}

/-- The poller and the descriptors of the process. No descriptor is duplicated, so that a file is gone
from the interest list when it is closed. -/
structure Files (κ : Type*) where
  poller : State κ
  isOpen : ℤ → Bool
  /-- of the descriptors in the map: it was closed since it is there, or was not open then -/
  lapsed : ℤ → Bool

/-- A step of the loop's thread, or a descriptor that is opened or closed. -/
inductive Op (κ : Type*) where
  | act (a : Act κ)
  | wait (events : List (Addr × BitVec 32))
  | opened (fd : ℤ)
  | closed (fd : ℤ)

namespace Files

variable (s : Files κ)

/-- The descriptor of the channel that is acted on. -/
def fdOf : Act κ → ℤ
  | .construct _ fd => fd
  | .listen c _ | .set c _ | .destroy c => (s.poller.memory c).fd

/-- Calls of `epoll_ctl` for the descriptor fail. -/
def missing (fd : ℤ) : Bool := if s.poller.channels fd = none then !s.isOpen fd else s.lapsed fd

def exec : Op κ → Except Fault (Files κ × List Addr)
  | .act a => do
    let poller ← s.poller.act (fun _ => !s.isOpen (s.fdOf a)) a
    return ({ s with poller := poller, lapsed := s.missing }, [])
  | .wait events => do
    let (poller, activated) ← s.poller.fillActivatedChannels events
    return ({ s with poller := poller }, activated)
  | .opened fd => .ok ({ s with isOpen := Function.update s.isOpen fd true }, [])
  | .closed fd =>
    .ok ({ poller := { s.poller with interest := Function.update s.poller.interest fd none }
           isOpen := Function.update s.isOpen fd false
           lapsed := Function.update s.lapsed fd true }, [])

end Files

/-- No channels and no files. -/
def init (memory : Addr → Channel κ) : Files κ where
  poller := Epoller.init memory
  isOpen _ := false
  lapsed _ := false

/-- What the program and the kernel keep to: a channel is made in free memory, methods are called on
living channels, and the kernel reports what is in the interest list, with any events. -/
def Admits (s : Files κ) : Op κ → Prop
  | .act (.construct c _) => s.poller.live c = false
  | .act (.listen c _) | .act (.set c _) | .act (.destroy c) => s.poller.live c = true
  | .wait events => ∀ e ∈ events, ∃ fd mask, s.poller.interest fd = some (e.1, mask)
  | .opened _ | .closed _ => True

/-- **The invariant.** What either map holds are living channels, each at its own descriptor; the
interest list holds their event masks, and for the descriptors in the map that have not lapsed. -/
structure Inv (s : Files κ) : Prop where
  mapped : ∀ fd c, s.poller.channels fd = some c →
    s.poller.live c = true ∧ (s.poller.memory c).fd = fd
  listed : ∀ fd c mask, s.poller.interest fd = some (c, mask) →
    s.poller.live c = true ∧ (s.poller.memory c).fd = fd ∧ (s.poller.memory c).event = mask
  isOpen : ∀ fd, s.poller.interest fd ≠ none → s.isOpen fd = true
  heard : ∀ fd, s.poller.interest fd ≠ none ↔ s.poller.channels fd ≠ none ∧ s.lapsed fd = false

/-- The operation calls `epoll_ctl` for a descriptor for which that fails. -/
def Fails (s : Files κ) : Op κ → Prop
  | .act (.listen c _) | .act (.destroy c) => s.missing (s.poller.memory c).fd = true
  | _ => False

variable {s s' : Files κ} {c : Addr}

theorem inv_init (memory : Addr → Channel κ) : Inv (init memory) where
  mapped _ _ h := by cases h
  listed _ _ _ h := by cases h
  isOpen _ h := absurd rfl h
  heard _ := iff_of_false (fun h => h rfl) fun h => h.1 rfl

/-- What is in the interest list is in the map. -/
theorem Inv.channels_ne (h : Inv s) {fd : ℤ} (hi : s.poller.interest fd ≠ none) :
    s.poller.channels fd ≠ none := ((h.heard fd).mp hi).1

/-- Where nothing is missing, a descriptor in the map is in the interest list and open. -/
theorem Inv.of_not_missing (h : Inv s) {fd : ℤ} (hm : s.missing fd = false) :
    s.isOpen fd = true ∧
      (s.poller.interest fd ≠ none ↔ s.poller.channels fd ≠ none) := by
  unfold Files.missing at hm
  split_ifs at hm with hc
  · refine ⟨by simpa using hm, iff_of_false (fun hi => h.channels_ne hi hc) (not_not.mpr hc)⟩
  · have hi := (h.heard fd).mpr ⟨hc, hm⟩
    exact ⟨h.isOpen fd hi, iff_of_true hi hc⟩

/-- Where the descriptor is missing, it is not in the interest list, and not open if not in the map. -/
theorem Inv.of_missing (h : Inv s) {fd : ℤ} (hm : s.missing fd = true) :
    s.poller.interest fd = none ∧ (s.poller.channels fd = none → s.isOpen fd = false) := by
  unfold Files.missing at hm
  split_ifs at hm with hc
  · exact ⟨not_not.mp fun hi => h.channels_ne hi hc, fun _ => by simpa using hm⟩
  · refine ⟨not_not.mp fun hi => ?_, fun hn => absurd hn hc⟩
    have hl := ((h.heard fd).mp hi).2
    rw [hm] at hl
    cases hl

/-! ### Registering -/

/-- The channel is changed, and registered: its descriptor is in the map, and in the interest list
unless that failed, which is logged. -/
def registered (s : Files κ) (c : Addr) (ch : Channel κ) : State κ :=
  let fd := ch.fd
  { s.poller with
    memory := Function.update s.poller.memory c ch
    channels := Function.update s.poller.channels fd (some ((s.poller.channels fd).getD c))
    interest := if s.missing fd then s.poller.interest
      else Function.update s.poller.interest fd (some (c, ch.event))
    logged := if s.missing fd then
        ((if s.poller.channels fd = none then .add else .mod), fd) :: s.poller.logged
      else s.poller.logged }

/-- **What `update` comes to**, whichever operation it chooses. -/
theorem update_modify (h : Inv s) {f : Channel κ → Channel κ}
    (hf : (f (s.poller.memory c)).fd = (s.poller.memory c).fd) :
    (s.poller.modify c f).update (fun _ => !s.isOpen (s.poller.memory c).fd) c =
      registered s c (f (s.poller.memory c)) := by
  unfold State.update State.updateOperation State.ctl registered
  simp only [State.modify_memory_self]
  cases hm : s.missing (s.poller.memory c).fd with
  | true =>
    obtain ⟨hi, hclosed⟩ := h.of_missing hm
    cases hch : s.poller.channels (s.poller.memory c).fd with
    | none =>
      have ho := hclosed hch
      simp [State.modify, hf, hch, hm, ho]
    | some a =>
      have hsame : Function.update s.poller.channels (s.poller.memory c).fd (some a) =
          s.poller.channels := by rw [← hch, Function.update_eq_self]
      cases s.isOpen (s.poller.memory c).fd <;>
        simp [State.modify, hf, hch, hm, hi, epollCtl, hsame]
  | false =>
    obtain ⟨ho, hiff⟩ := h.of_not_missing hm
    cases hch : s.poller.channels (s.poller.memory c).fd with
    | none =>
      have hi := not_not.mp fun hi => hiff.mp hi hch
      simp [State.modify, hf, hch, hm, ho, hi, epollCtl]
    | some a =>
      obtain ⟨e, hi⟩ := Option.ne_none_iff_exists'.mp (hiff.mpr (by simp [hch]))
      have hsame : Function.update s.poller.channels (s.poller.memory c).fd (some a) =
          s.poller.channels := by rw [← hch, Function.update_eq_self]
      simp [State.modify, hf, hch, hm, ho, hi, epollCtl, hsame]

/-- What an operation finds missing was not heard, and the other way round. -/
theorem Inv.heard_missing (h : Inv s) (fd : ℤ) :
    s.poller.interest fd ≠ none ↔ s.poller.channels fd ≠ none ∧ s.missing fd = false := by
  rw [h.heard]
  unfold Files.missing
  refine and_congr_right fun hc => ?_
  rw [if_neg hc]

/-- Registering keeps the invariant. -/
theorem inv_registered (h : Inv s) (hc : s.poller.live c = true) {ch : Channel κ}
    (hfd : ch.fd = (s.poller.memory c).fd) :
    Inv { s with poller := registered s c ch, lapsed := s.missing } := by
  have hmem : ∀ c', (Function.update s.poller.memory c ch c').fd = (s.poller.memory c').fd :=
    fun c' => by
      by_cases hcc : c' = c
      · rw [hcc, Function.update_self, hfd]
      · rw [Function.update_of_ne hcc]
  -- what the two maps hold now
  have hat : ∀ fd, (registered s c ch).interest fd =
      if fd = ch.fd ∧ s.missing ch.fd = false then some (c, ch.event) else s.poller.interest fd := by
    intro fd
    unfold registered
    by_cases hf : fd = ch.fd
    · cases hm : s.missing ch.fd <;> simp [hf, hm]
    · cases hm : s.missing ch.fd <;> simp [hf, hm]
  have hcat : ∀ fd, (registered s c ch).channels fd =
      if fd = ch.fd then some ((s.poller.channels ch.fd).getD c) else s.poller.channels fd := by
    intro fd
    unfold registered
    by_cases hf : fd = ch.fd <;> simp [hf]
  constructor
  case mapped =>
    intro fd c' hc'
    dsimp only at hc' ⊢
    rw [hcat] at hc'
    unfold registered
    dsimp only
    rw [hmem]
    split_ifs at hc' with hf
    · cases hch : s.poller.channels ch.fd with
      | none =>
        rw [hch] at hc'
        cases hc'
        exact ⟨hc, hf ▸ hfd.symm⟩
      | some a =>
        rw [hch] at hc'
        cases hc'
        exact hf ▸ h.mapped _ _ hch
    · exact h.mapped fd c' hc'
  case listed =>
    intro fd c' mask hi
    dsimp only at hi ⊢
    rw [hat] at hi
    unfold registered
    dsimp only
    rw [hmem]
    split_ifs at hi with hf
    · cases hi
      rw [Function.update_self]
      exact ⟨hc, hf.1 ▸ hfd.symm, rfl⟩
    · obtain ⟨hl, hfd', hmask⟩ := h.listed fd c' mask hi
      have hne : c' ≠ c := by
        rintro rfl
        have hfc : fd = ch.fd := hfd'.symm.trans hfd.symm
        refine hf ⟨hfc, ((h.heard_missing ch.fd).mp ?_).2⟩
        rw [← hfc, hi]
        exact Option.some_ne_none _
      rw [Function.update_of_ne hne]
      exact ⟨hl, hfd', hmask⟩
  case isOpen =>
    intro fd hi
    dsimp only at hi ⊢
    rw [hat] at hi
    split_ifs at hi with hf
    · exact hf.1 ▸ (h.of_not_missing hf.2).1
    · exact h.isOpen fd hi
  case heard =>
    intro fd
    dsimp only
    rw [hat, hcat]
    by_cases hf : fd = ch.fd
    · rw [hf, if_pos rfl]
      cases hm : s.missing ch.fd with
      | false => simp
      | true => simp [(h.of_missing hm).1]
    · rw [if_neg hf, if_neg fun hb => hf hb.1]
      exact h.heard_missing fd

/-! ### The destructor -/

/-- The channel is destroyed: its descriptor is in neither map, and both calls of `epoll_ctl` are logged
if it was missing. -/
def removed (s : Files κ) (c : Addr) : State κ :=
  let fd := (s.poller.memory c).fd
  { memory := Function.update s.poller.memory c (s.poller.memory c).disableAll
    live := Function.update s.poller.live c false
    channels := Function.update s.poller.channels fd none
    interest := Function.update s.poller.interest fd none
    logged := if s.missing fd then
        (.del, fd) :: ((if s.poller.channels fd = none then .add else .mod), fd) :: s.poller.logged
      else s.poller.logged }

/-- `disableAll` has put the descriptor into the map, if it was not there, so that there is something to
erase. -/
theorem destroy_eq (h : Inv s) (hc : s.poller.live c = true) :
    s.poller.destroy (fun _ => !s.isOpen (s.poller.memory c).fd) c = .ok (removed s c) := by
  have hlive : ¬ s.poller.live c = false := by rw [hc]; decide
  have hfd : (s.poller.memory c).disableAll.fd = (s.poller.memory c).fd := rfl
  unfold State.destroy State.listen
  rw [if_neg hlive, ok_bind]
  show State.removeChannel _ ((s.poller.modify c Channel.disableAll).update _ c) c >>= _ = _
  rw [update_modify h hfd]
  unfold State.removeChannel State.removeFromEpoll State.ctl registered removed
  cases hm : s.missing (s.poller.memory c).fd with
  | true =>
    obtain ⟨hi, -⟩ := h.of_missing hm
    have hsame : Function.update s.poller.interest (s.poller.memory c).fd none =
        s.poller.interest := by rw [← hi, Function.update_eq_self]
    cases s.isOpen (s.poller.memory c).fd <;> simp [hfd, hm, hi, hsame, epollCtl]
  | false =>
    obtain ⟨ho, -⟩ := h.of_not_missing hm
    simp [hfd, hm, ho, epollCtl]

theorem inv_removed (h : Inv s) (c : Addr) :
    Inv { s with poller := removed s c, lapsed := s.missing } := by
  have hmem : ∀ c', c' ≠ c → (removed s c).memory c' = s.poller.memory c' ∧
      (removed s c).live c' = s.poller.live c' := fun c' hne =>
    ⟨Function.update_of_ne hne .., Function.update_of_ne hne ..⟩
  have hat : ∀ {fd}, fd ≠ (s.poller.memory c).fd →
      (removed s c).interest fd = s.poller.interest fd ∧
        (removed s c).channels fd = s.poller.channels fd := fun hne =>
    ⟨Function.update_of_ne hne .., Function.update_of_ne hne ..⟩
  have hgone : (removed s c).interest (s.poller.memory c).fd = none ∧
      (removed s c).channels (s.poller.memory c).fd = none :=
    ⟨Function.update_self .., Function.update_self ..⟩
  constructor
  case mapped =>
    intro fd c' hc'
    by_cases hf : fd = (s.poller.memory c).fd
    · rw [hf, hgone.2] at hc'
      cases hc'
    · rw [(hat hf).2] at hc'
      obtain ⟨hl, hfd⟩ := h.mapped fd c' hc'
      have hne : c' ≠ c := by
        rintro rfl
        exact hf hfd.symm
      dsimp only
      rw [(hmem c' hne).1, (hmem c' hne).2]
      exact ⟨hl, hfd⟩
  case listed =>
    intro fd c' mask hi
    by_cases hf : fd = (s.poller.memory c).fd
    · rw [hf, hgone.1] at hi
      cases hi
    · rw [(hat hf).1] at hi
      obtain ⟨hl, hfd, hmask⟩ := h.listed fd c' mask hi
      have hne : c' ≠ c := by
        rintro rfl
        exact hf hfd.symm
      dsimp only
      rw [(hmem c' hne).1, (hmem c' hne).2]
      exact ⟨hl, hfd, hmask⟩
  case isOpen =>
    intro fd hi
    by_cases hf : fd = (s.poller.memory c).fd
    · exact absurd (hf ▸ hgone.1) hi
    · dsimp only at hi
      rw [(hat hf).1] at hi
      exact h.isOpen fd hi
  case heard =>
    intro fd
    by_cases hf : fd = (s.poller.memory c).fd
    · rw [hf]
      exact iff_of_false (not_not.mpr hgone.1) fun hb => hb.1 hgone.2
    · dsimp only
      rw [(hat hf).1, (hat hf).2]
      exact h.heard_missing fd

/-! ### The other operations -/

/-- What is missing may be noted at any time. -/
theorem Inv.noted (h : Inv s) : Inv { s with lapsed := s.missing } where
  mapped := h.mapped
  listed := h.listed
  isOpen := h.isOpen
  heard := h.heard_missing

/-- Fields that the maps do not hold may change. -/
theorem inv_modify (h : Inv s) {f : Channel κ → Channel κ}
    (hf : (f (s.poller.memory c)).fd = (s.poller.memory c).fd ∧
      (f (s.poller.memory c)).event = (s.poller.memory c).event) :
    Inv { s with poller := s.poller.modify c f } := by
  have hmem : ∀ c', ((s.poller.modify c f).memory c').fd = (s.poller.memory c').fd ∧
      ((s.poller.modify c f).memory c').event = (s.poller.memory c').event := fun c' => by
    by_cases hcc : c' = c
    · rw [hcc, State.modify_memory_self]
      exact hf
    · rw [State.modify_memory_of_ne _ hcc]
      exact ⟨rfl, rfl⟩
  constructor
  case mapped =>
    intro fd c' hc'
    dsimp only at hc' ⊢
    rw [(hmem c').1]
    exact h.mapped fd c' hc'
  case listed =>
    intro fd c' mask hi
    dsimp only at hi ⊢
    rw [(hmem c').1, (hmem c').2]
    exact h.listed fd c' mask hi
  case isOpen => exact h.isOpen
  case heard => exact h.heard

/-- A channel that is made in free memory is in neither map. -/
theorem inv_construct (h : Inv s) (hc : s.poller.live c = false) (fd : ℤ) :
    Inv { s with poller := s.poller.construct c fd } := by
  have hmem : ∀ c', s.poller.live c' = true →
      (s.poller.construct c fd).memory c' = s.poller.memory c' ∧
        (s.poller.construct c fd).live c' = true := fun c' hc' => by
    have hne : c' ≠ c := by
      rintro rfl
      rw [hc] at hc'
      cases hc'
    exact ⟨Function.update_of_ne hne .., (Function.update_of_ne hne ..).trans hc'⟩
  constructor
  case mapped =>
    intro fd' c' hc'
    obtain ⟨hl, hfd⟩ := h.mapped fd' c' hc'
    dsimp only
    rw [(hmem c' hl).1]
    exact ⟨(hmem c' hl).2, hfd⟩
  case listed =>
    intro fd' c' mask hi
    obtain ⟨hl, hfd, hmask⟩ := h.listed fd' c' mask hi
    dsimp only
    rw [(hmem c' hl).1]
    exact ⟨(hmem c' hl).2, hfd, hmask⟩
  case isOpen => exact h.isOpen
  case heard => exact h.heard

/-- **Activating** the channels of a batch: each is found, and the batch is theirs. -/
theorem fillActivatedChannels_ok : ∀ (events : List (Addr × BitVec 32)) {s : Files κ}, Inv s →
    (∀ e ∈ events, ∃ fd mask, s.poller.interest fd = some (e.1, mask)) →
      ∃ p, s.poller.fillActivatedChannels events = .ok (p, events.map Prod.fst) ∧
        Inv { s with poller := p } ∧ p.logged = s.poller.logged
  | [], s, h, _ => ⟨s.poller, rfl, h, rfl⟩
  | (c, ev) :: rest, s, h, hev => by
    obtain ⟨fd, mask, hi⟩ := hev _ List.mem_cons_self
    obtain ⟨hlive, hfd, -⟩ := h.listed fd c mask hi
    have hch : s.poller.channels (s.poller.memory c).fd ≠ none := by
      rw [hfd]
      exact h.channels_ne (by simp [hi])
    have hI := inv_modify (c := c) (f := (·.setRevent ev)) h ⟨rfl, rfl⟩
    obtain ⟨p, he, hI', hlog⟩ := fillActivatedChannels_ok rest hI fun e he =>
      hev e (List.mem_cons_of_mem _ he)
    refine ⟨p, ?_, hI', hlog⟩
    rw [State.fillActivatedChannels, if_neg (by rw [hlive]; decide), if_neg hch, he]
    rfl

theorem inv_opened (h : Inv s) (fd : ℤ) :
    Inv { s with isOpen := Function.update s.isOpen fd true } := by
  refine { h with isOpen := fun fd' hi => ?_ }
  dsimp only
  by_cases hf : fd' = fd
  · rw [hf, Function.update_self]
  · rw [Function.update_of_ne hf]
    exact h.isOpen fd' hi

/-- A descriptor that is closed lapses. -/
theorem inv_closed (h : Inv s) (fd : ℤ) :
    Inv { poller := { s.poller with interest := Function.update s.poller.interest fd none }
          isOpen := Function.update s.isOpen fd false
          lapsed := Function.update s.lapsed fd true } := by
  constructor
  case mapped => exact h.mapped
  case listed =>
    intro fd' c' mask hi
    dsimp only at hi
    by_cases hf : fd' = fd
    · rw [hf, Function.update_self] at hi
      cases hi
    · rw [Function.update_of_ne hf] at hi
      exact h.listed fd' c' mask hi
  case isOpen =>
    intro fd' hi
    dsimp only at hi ⊢
    by_cases hf : fd' = fd
    · rw [hf, Function.update_self] at hi
      exact absurd rfl hi
    · rw [Function.update_of_ne hf] at hi ⊢
      exact h.isOpen fd' hi
  case heard =>
    intro fd'
    dsimp only
    by_cases hf : fd' = fd
    · simp [hf]
    · rw [Function.update_of_ne hf, Function.update_of_ne hf]
      exact h.heard fd'

/-! ### Runs -/

theorem logged_registered_ne (s : Files κ) (c : Addr) (ch : Channel κ) :
    (registered s c ch).logged ≠ s.poller.logged ↔ s.missing ch.fd = true := by
  cases hm : s.missing ch.fd <;> simp [registered, hm]

theorem logged_removed_ne (s : Files κ) (c : Addr) :
    (removed s c).logged ≠ s.poller.logged ↔ s.missing (s.poller.memory c).fd = true := by
  cases hm : s.missing (s.poller.memory c).fd with
  | false => simp [removed, hm]
  | true =>
    refine iff_of_true (fun heq => ?_) rfl
    have hlen := congrArg List.length heq
    simp only [removed, hm, if_true, List.length_cons] at hlen
    omega

/-- **One operation** succeeds, keeps the invariant, and logs a failure if its descriptor is missing. -/
theorem exec_ok (h : Inv s) {op : Op κ} (hadm : Admits s op) :
    ∃ s' cs, s.exec op = .ok (s', cs) ∧ Inv s' ∧ (s'.poller.logged ≠ s.poller.logged ↔ Fails s op) := by
  have hsame : s.poller.logged ≠ s.poller.logged ↔ False := by simp
  cases op with
  | act a =>
    cases a with
    | construct c fd => exact ⟨_, _, rfl, inv_construct h.noted hadm fd, hsame⟩
    | listen c m =>
      have hlive : ¬ s.poller.live c = false := by rw [show _ = true from hadm]; decide
      have hfd := m.apply_fd (s.poller.memory c)
      have he : s.poller.listen (fun _ => !s.isOpen (s.poller.memory c).fd) c m =
          .ok (registered s c (m.apply (s.poller.memory c))) := by
        unfold State.listen
        rw [if_neg hlive, update_modify h hfd]
      refine ⟨_, [], ?_, inv_registered h hadm hfd, ?_⟩
      · show (State.listen _ _ c m >>= _) = _
        rw [Files.fdOf, he]
        rfl
      · dsimp only
        rw [logged_registered_ne, hfd]
        rfl
    | set c m =>
      have hlive : ¬ s.poller.live c = false := by rw [show _ = true from hadm]; decide
      refine ⟨_, [], ?_, inv_modify (c := c) (f := m.apply) h.noted ⟨m.apply_fd _, m.apply_event _⟩,
        hsame⟩
      show (State.set _ c m >>= _) = _
      unfold State.set
      rw [if_neg hlive]
      rfl
    | destroy c =>
      refine ⟨_, [], ?_, inv_removed h c, logged_removed_ne s c⟩
      show (State.destroy _ _ c >>= _) = _
      rw [Files.fdOf, destroy_eq h hadm]
      rfl
  | wait events =>
    obtain ⟨p, he, hI, hlog⟩ := fillActivatedChannels_ok events h hadm
    have hsame' : p.logged ≠ s.poller.logged ↔ False := by rw [hlog]; exact hsame
    refine ⟨{ s with poller := p }, events.map Prod.fst, ?_, hI, hsame'⟩
    show (State.fillActivatedChannels events s.poller >>= _) = _
    rw [he]
    rfl
  | opened fd => exact ⟨_, _, rfl, inv_opened h fd, hsame⟩
  | closed fd => exact ⟨_, _, rfl, inv_closed h fd, hsame⟩

/-- A descriptor is closed under its channel, and its number is taken up by a file with a channel of its
own. -/
def reused : List (Op ℕ) :=
  [.opened 5, .act (.construct 1 5), .act (.listen 1 .enableRead), .closed 5, .opened 5,
    .act (.construct 2 5), .act (.listen 2 .enableRead)]

end Chaining.Poll.Closed
