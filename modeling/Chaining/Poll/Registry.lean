import Chaining.Base.Runs
import Chaining.Poll.Epoller

/-! # The registry and the interest list stay equal

`Inv` says that the kernel's interest list is the poller's map with the event masks of its channels,
which are alive and hold the descriptors they are mapped from. A channel that registers itself changes
both maps at its descriptor and nowhere else (`registered`), whichever operation was chosen
(`update_modify`); the destructor registers it first, so that there is an entry to remove. So every
operation keeps the invariant, and no `assert` and no `epoll_ctl` fails (`registry_mirrors`). -/

namespace Chaining.Poll.Registry

open Chaining.Base.Runs Chaining.Outcome Chaining.Poll.Events Chaining.Poll.Epoller

variable {κ : Type*} {s s' : State κ} {c : Addr}

/-- **The invariant.** -/
structure Inv (s : State κ) : Prop where
  distinct : ∀ c c', s.live c = true → s.live c' = true →
    (s.memory c).fd = (s.memory c').fd → c = c'
  alive : ∀ fd c, s.channels fd = some c → s.live c = true ∧ (s.memory c).fd = fd
  interest : ∀ fd, s.interest fd = (s.channels fd).map fun c => (c, (s.memory c).event)
  logged : s.logged = []

/-- What the program and the kernel keep to: a channel is made in free memory and for a descriptor
that no living one has, methods are called on living channels, and the kernel reports what is in the
interest list, with any events. -/
def Admits (s : State κ) : Op κ → Prop
  | .act (.construct c fd) =>
    s.live c = false ∧ ∀ c', s.live c' = true → (s.memory c').fd ≠ fd
  | .act (.listen c _) | .act (.set c _) | .act (.destroy c) => s.live c = true
  | .wait events => ∀ e ∈ events, ∃ fd mask, s.interest fd = some (e.1, mask)

/-- **The maps are equal**: descriptors are mapped to living channels, exactly those for which the
kernel holds the channel's address and its event mask; and no call of `epoll_ctl` has failed. -/
structure Mirrored (s : State κ) : Prop where
  same : ∀ fd c, s.channels fd = some c ↔ s.interest fd = some (c, (s.memory c).event)
  covers : ∀ fd, s.channels fd = none ↔ s.interest fd = none
  alive : ∀ fd c, s.channels fd = some c → s.live c = true ∧ (s.memory c).fd = fd
  gone : ∀ c, s.live c = false → ∀ fd, s.channels fd ≠ some c ∧ ∀ mask, s.interest fd ≠ some (c, mask)
  obeyed : s.logged = []

/-- The kernel's entry is that of the channel the descriptor is mapped to. -/
theorem Inv.of_interest (h : Inv s) {fd : ℤ} {mask : BitVec 32} (hfd : s.interest fd = some (c, mask)) :
    s.channels fd = some c ∧ mask = (s.memory c).event := by
  rw [h.interest, Option.map_eq_some_iff] at hfd
  obtain ⟨c', hc', he⟩ := hfd
  cases he
  exact ⟨hc', rfl⟩

theorem Inv.mirrored (h : Inv s) : Mirrored s where
  same fd c := ⟨fun hc => by rw [h.interest, hc, Option.map_some], fun hc => (h.of_interest hc).1⟩
  covers fd := by rw [h.interest, Option.map_eq_none_iff]
  alive := h.alive
  gone c hc fd := by
    have hn : s.channels fd ≠ some c := fun hfd => by
      have hlive := (h.alive fd c hfd).1
      rw [hc] at hlive
      cases hlive
    exact ⟨hn, fun mask hm => hn (h.of_interest hm).1⟩
  obeyed := h.logged

/-- **A destroyed channel is in neither map**, also if it was never enabled. -/
def Unlisted (s : State κ) : Op κ → Prop
  | .act (.destroy c) => ∀ s' cs, s.exec willing (.act (.destroy c)) = .ok (s', cs) →
    ∀ fd, s'.channels fd ≠ some c ∧ ∀ mask, s'.interest fd ≠ some (c, mask)
  | _ => True

theorem inv_init (memory : Addr → Channel κ) : Inv (init memory) where
  distinct _ _ hc := by cases hc
  alive _ _ hc := by cases hc
  interest _ := rfl
  logged := rfl

/-! ### Registering -/

/-- The channel is registered as `ch`. -/
def registered (s : State κ) (c : Addr) (ch : Channel κ) : State κ :=
  { s with
    memory := Function.update s.memory c ch
    channels := Function.update s.channels ch.fd (some c)
    interest := Function.update s.interest ch.fd (some (c, ch.event)) }

/-- A living channel's descriptor is mapped to that channel, if at all. -/
theorem Inv.eq_of_mapped (h : Inv s) (hc : s.live c = true) {c' : Addr}
    (hfd : s.channels (s.memory c).fd = some c') : c' = c := by
  obtain ⟨hlive, hfd'⟩ := h.alive _ _ hfd
  exact h.distinct c' c hlive hc hfd'

/-- A descriptor other than that of a living channel is not mapped to it. -/
theorem Inv.ne_of_mapped (h : Inv s) {fd : ℤ} {c' : Addr} (hfd : s.channels fd = some c')
    (hne : fd ≠ (s.memory c).fd) : c' ≠ c := by
  rintro rfl
  exact hne (h.alive _ _ hfd).2.symm

/-- **Both ways of registering** come to the same. -/
theorem update_modify (h : Inv s) (hc : s.live c = true) {f : Channel κ → Channel κ}
    (hf : (f (s.memory c)).fd = (s.memory c).fd) :
    (s.modify c f).update willing c = registered s c (f (s.memory c)) := by
  unfold State.update State.updateOperation State.ctl
  simp only [State.modify_memory_self]
  have hint := h.interest (s.memory c).fd
  match hch : s.channels (s.memory c).fd with
  | none =>
    rw [hch] at hint
    simp only [State.modify, hf, hch, willing, epollCtl, hint, registered]
    rfl
  | some c' =>
    cases h.eq_of_mapped hc hch
    rw [hch] at hint
    have hsame : Function.update s.channels (s.memory c).fd (some c) = s.channels := by
      rw [← hch, Function.update_eq_self]
    simp only [State.modify, hf, hch, willing, epollCtl, hint, registered, hsame]
    rfl

/-- Registering keeps the invariant. -/
theorem inv_registered (h : Inv s) (hc : s.live c = true) {ch : Channel κ}
    (hfd : ch.fd = (s.memory c).fd) : Inv (registered s c ch) := by
  have hmem : ∀ c', (Function.update s.memory c ch c').fd = (s.memory c').fd := fun c' => by
    by_cases hcc : c' = c
    · rw [hcc, Function.update_self, hfd]
    · rw [Function.update_of_ne hcc]
  unfold registered
  constructor
  case distinct =>
    intro c₁ c₂ h1 h2 heq
    rw [hmem, hmem] at heq
    exact h.distinct c₁ c₂ h1 h2 heq
  case alive =>
    intro fd c' hc'
    dsimp only at hc' ⊢
    rw [hmem]
    by_cases hfc : fd = ch.fd
    · rw [hfc, Function.update_self] at hc'
      cases hc'
      exact ⟨hc, hfc ▸ hfd.symm⟩
    · rw [Function.update_of_ne hfc] at hc'
      exact h.alive fd c' hc'
  case interest =>
    intro fd
    dsimp only
    by_cases hfc : fd = ch.fd
    · rw [hfc, Function.update_self, Function.update_self, Option.map_some, Function.update_self]
    · rw [Function.update_of_ne hfc, Function.update_of_ne hfc, h.interest]
      match hch : s.channels fd with
      | none => rfl
      | some c' =>
        have hne := h.ne_of_mapped hch (hfd ▸ hfc)
        rw [Option.map_some, Option.map_some, Function.update_of_ne hne]
  case logged => exact h.logged

theorem listen_ok (h : Inv s) (hc : s.live c = true) (m : Listen) :
    s.listen willing c m = .ok (registered s c (m.apply (s.memory c))) := by
  have hlive : ¬ s.live c = false := by rw [hc]; decide
  unfold State.listen
  rw [if_neg hlive, update_modify h hc (m.apply_fd _)]

/-! ### The other operations -/

/-- Fields that the maps do not hold may change. -/
theorem inv_modify (h : Inv s) {f : Channel κ → Channel κ}
    (hf : (f (s.memory c)).fd = (s.memory c).fd ∧ (f (s.memory c)).event = (s.memory c).event) :
    Inv (s.modify c f) := by
  have hmem : ∀ c', ((s.modify c f).memory c').fd = (s.memory c').fd ∧
      ((s.modify c f).memory c').event = (s.memory c').event := fun c' => by
    by_cases hcc : c' = c
    · rw [hcc, State.modify_memory_self]
      exact hf
    · rw [State.modify_memory_of_ne _ hcc]
      exact ⟨rfl, rfl⟩
  constructor
  case distinct =>
    intro c₁ c₂ h1 h2 heq
    rw [(hmem c₁).1, (hmem c₂).1] at heq
    exact h.distinct c₁ c₂ h1 h2 heq
  case alive =>
    intro fd c' hc'
    rw [(hmem c').1]
    exact h.alive fd c' hc'
  case interest =>
    intro fd
    simp only [(hmem _).2]
    exact h.interest fd
  case logged => exact h.logged

theorem inv_construct (h : Inv s) {fd : ℤ} (hc : s.live c = false)
    (hfd : ∀ c', s.live c' = true → (s.memory c').fd ≠ fd) : Inv (s.construct c fd) := by
  have hmem : ∀ c', s.live c' = true → (s.construct c fd).memory c' = s.memory c' := fun c' hc' => by
    have hne : c' ≠ c := by
      rintro rfl
      rw [hc] at hc'
      cases hc'
    exact Function.update_of_ne hne ..
  have hnew : ((s.construct c fd).memory c).fd = fd :=
    congrArg Channel.fd (s.modify_memory_self c (Channel.construct fd))
  have hlive : ∀ c', (s.construct c fd).live c' = true ↔ c' = c ∨ s.live c' = true := fun c' => by
    unfold State.construct
    by_cases hcc : c' = c
    · simp [hcc]
    · simp [hcc]
  have hmapped : ∀ fd' c', s.channels fd' = some c' → (s.construct c fd).memory c' = s.memory c' :=
    fun fd' c' hc' => hmem c' (h.alive fd' c' hc').1
  constructor
  case distinct =>
    intro c₁ c₂ h1 h2 heq
    rcases (hlive c₁).mp h1 with e1 | l1 <;> rcases (hlive c₂).mp h2 with e2 | l2
    · exact e1.trans e2.symm
    · rw [e1, hnew, hmem c₂ l2] at heq
      exact absurd heq.symm (hfd c₂ l2)
    · rw [e2, hnew, hmem c₁ l1] at heq
      exact absurd heq (hfd c₁ l1)
    · rw [hmem c₁ l1, hmem c₂ l2] at heq
      exact h.distinct c₁ c₂ l1 l2 heq
  case alive =>
    intro fd' c' hc'
    obtain ⟨hl, hf⟩ := h.alive fd' c' hc'
    rw [hmapped fd' c' hc']
    exact ⟨(hlive c').mpr (Or.inr hl), hf⟩
  case interest =>
    intro fd'
    show s.interest fd' = (s.channels fd').map _
    rw [h.interest]
    match hch : s.channels fd' with
    | none => rfl
    | some c' => rw [Option.map_some, Option.map_some, hmapped fd' c' hch]
  case logged => exact h.logged

/-- The channel's descriptor is taken out of both maps. -/
def unregistered (s : State κ) (c : Addr) : State κ :=
  { s with
    channels := Function.update s.channels (s.memory c).fd none
    interest := Function.update s.interest (s.memory c).fd none }

/-- A channel that is registered can be removed. -/
theorem removeChannel_ok (h : Inv s) (hch : s.channels (s.memory c).fd = some c) :
    s.removeChannel willing c = .ok (unregistered s c) := by
  have hint := h.interest (s.memory c).fd
  rw [hch, Option.map_some] at hint
  simp only [State.removeChannel, State.removeFromEpoll, State.ctl, hch, willing, epollCtl, hint,
    unregistered]
  rfl

/-- A channel that is in neither map may die. -/
theorem inv_unregistered (h : Inv s) (c : Addr) :
    Inv { unregistered s c with live := Function.update s.live c false } := by
  have hlive : ∀ c', Function.update s.live c false c' = true → s.live c' = true := fun c' hc' => by
    by_cases hcc : c' = c
    · rw [hcc, Function.update_self] at hc'
      simp at hc'
    · rwa [Function.update_of_ne hcc] at hc'
  unfold unregistered
  constructor
  case distinct => exact fun c₁ c₂ h1 h2 heq => h.distinct c₁ c₂ (hlive c₁ h1) (hlive c₂ h2) heq
  case alive =>
    intro fd c' hc'
    dsimp only at hc' ⊢
    by_cases hfc : fd = (s.memory c).fd
    · rw [hfc, Function.update_self] at hc'
      simp at hc'
    · rw [Function.update_of_ne hfc] at hc'
      have hne := h.ne_of_mapped hc' hfc
      rw [Function.update_of_ne hne]
      exact h.alive fd c' hc'
  case interest =>
    intro fd
    dsimp only
    by_cases hfc : fd = (s.memory c).fd
    · rw [hfc, Function.update_self, Function.update_self]
      rfl
    · rw [Function.update_of_ne hfc, Function.update_of_ne hfc]
      exact h.interest fd
  case logged => exact h.logged

/-- **The destructor** registers its channel, which may be a first time, so that there is an entry to
remove. -/
theorem destroy_eq (h : Inv s) (hc : s.live c = true) :
    s.destroy willing c = .ok { unregistered (registered s c (s.memory c).disableAll) c with
      live := Function.update s.live c false } := by
  have hreg : Inv (registered s c (s.memory c).disableAll) := inv_registered h hc rfl
  have hch : (registered s c (s.memory c).disableAll).channels
      ((registered s c (s.memory c).disableAll).memory c).fd = some c := by
    unfold registered
    dsimp only
    rw [Function.update_self, Function.update_self]
  have hlisten : s.listen willing c .disableAll = .ok (registered s c (s.memory c).disableAll) :=
    listen_ok h hc .disableAll
  unfold State.destroy
  rw [hlisten, ok_bind, removeChannel_ok hreg hch, ok_bind]
  rfl

/-- It succeeds and keeps the invariant. -/
theorem destroy_ok (h : Inv s) (hc : s.live c = true) :
    ∃ s', s.destroy willing c = .ok s' ∧ Inv s' := by
  have hreg : Inv (registered s c (s.memory c).disableAll) := inv_registered h hc rfl
  exact ⟨_, destroy_eq h hc, inv_unregistered hreg c⟩

/-- **Behind the destructor** the channel is in neither map. -/
theorem destroy_gone (h : Inv s) (hc : s.live c = true) {s' : State κ}
    (he : s.destroy willing c = .ok s') (fd : ℤ) :
    s'.channels fd ≠ some c ∧ ∀ mask, s'.interest fd ≠ some (c, mask) := by
  have hreg : Inv (registered s c (s.memory c).disableAll) := inv_registered h hc rfl
  have hch : (unregistered (registered s c (s.memory c).disableAll) c).channels fd ≠ some c := by
    intro hfd
    unfold unregistered at hfd
    dsimp only at hfd
    by_cases heq : fd = ((registered s c (s.memory c).disableAll).memory c).fd
    · rw [heq, Function.update_self] at hfd
      cases hfd
    · rw [Function.update_of_ne heq] at hfd
      exact hreg.ne_of_mapped hfd heq rfl
  cases he.symm.trans (destroy_eq h hc)
  refine ⟨hch, fun mask hm => hch ?_⟩
  exact ((inv_unregistered hreg c).of_interest hm).1

/-- **Activating** the channels of a batch: each is found, and the batch is theirs. -/
theorem fillActivatedChannels_ok : ∀ (events : List (Addr × BitVec 32)) {s : State κ}, Inv s →
    (∀ e ∈ events, ∃ fd mask, s.interest fd = some (e.1, mask)) →
      ∃ s', s.fillActivatedChannels events = .ok (s', events.map Prod.fst) ∧ Inv s'
  | [], s, h, _ => ⟨s, rfl, h⟩
  | (c, ev) :: rest, s, h, hev => by
    obtain ⟨fd, mask, hint⟩ := hev _ List.mem_cons_self
    have hch := (h.of_interest hint).1
    obtain ⟨hlive, hfd⟩ := h.alive fd c hch
    have hI := inv_modify (c := c) (f := (·.setRevent ev)) h ⟨rfl, rfl⟩
    obtain ⟨s', he, hI'⟩ := fillActivatedChannels_ok rest hI fun e he =>
      hev e (List.mem_cons_of_mem _ he)
    refine ⟨s', ?_, hI'⟩
    rw [State.fillActivatedChannels, if_neg (by rw [hlive]; decide), if_neg (by rw [hfd, hch]; simp), he]
    rfl

/-! ### Runs -/

/-- **One operation** succeeds and keeps the invariant. -/
theorem exec_ok (h : Inv s) {op : Op κ} (hadm : Admits s op) :
    ∃ s' cs, s.exec willing op = .ok (s', cs) ∧ Inv s' := by
  cases op with
  | act a =>
    cases a with
    | construct c fd => exact ⟨_, _, rfl, inv_construct h hadm.1 hadm.2⟩
    | listen c m =>
      exact ⟨_, [], State.exec_act willing (listen_ok h hadm m), inv_registered h hadm (m.apply_fd _)⟩
    | set c m =>
      have hlive : ¬ s.live c = false := by rw [hadm]; decide
      exact ⟨s.modify c m.apply, [], State.exec_act willing (if_neg hlive),
        inv_modify h ⟨m.apply_fd _, m.apply_event _⟩⟩
    | destroy c =>
      obtain ⟨s', he, hI⟩ := destroy_ok h hadm
      exact ⟨s', [], State.exec_act willing he, hI⟩
  | wait events =>
    obtain ⟨s', he, hI⟩ := fillActivatedChannels_ok events h hadm
    exact ⟨s', _, he, hI⟩

/-- A step unlists what it destroys. -/
theorem exec_unlisted (h : Inv s) {op : Op κ} (hadm : Admits s op) : Unlisted s op := by
  cases op with
  | act a =>
    cases a with
    | destroy c =>
      intro s' cs he
      obtain ⟨t, hact, hret⟩ := bind_eq_ok.mp he
      cases hret
      exact destroy_gone h hadm hact
    | construct | listen | set => trivial
  | wait events => trivial

/-- **The registry and the interest list stay equal.** Every run of operations on channels, from a
loop without channels and whatever its memory holds, succeeds, and what it reaches is `Mirrored`. All
along the run, a channel that is destroyed is in neither map afterwards. -/
theorem registry_mirrors (memory : Addr → Channel κ) {ops : List (Op κ)}
    (hadm : Along (State.exec willing) Admits (init memory) ops) :
    (∃ answers s, Run (State.exec willing) (init memory) ops answers s ∧ Mirrored s) ∧
      Along (State.exec willing) Unlisted (init memory) ops := by
  obtain ⟨⟨answers, s, hrun, hI⟩, hunlisted⟩ :=
    exists_run_along (fun s op h ha => by
      obtain ⟨s', cs, he, hI⟩ := exec_ok h ha
      exact ⟨⟨s', cs, he, hI⟩, exec_unlisted h ha⟩) (inv_init memory) hadm
  exact ⟨⟨answers, s, hrun, hI.mirrored⟩, hunlisted⟩

/-- A channel is enabled, reported and destroyed, and one beside it is never enabled and destroyed; then
the first one's descriptor is that of a third. -/
def reused : List (Op ℕ) :=
  [.act (.construct 1 5), .act (.listen 1 .enableRead), .act (.construct 2 6), .wait [(1, EPOLLIN)],
    .act (.destroy 2), .act (.destroy 1), .act (.construct 3 5), .act (.listen 3 .enableWrite)]

theorem registry_mirrors_once :
    Along (State.exec willing) Admits (init zeros) reused ∧
      (∃ answers s, Run (State.exec willing) (init zeros) reused answers s ∧
        s.interest 5 = some (3, EPOLLOUT) ∧ s.interest 6 = none) ∧
      (∃ answers s, Run (State.exec willing) (init zeros) reused answers s ∧ Mirrored s) ∧
      Along (State.exec willing) Unlisted (init zeros) reused := by
  have hadm : Along (State.exec willing) Admits (init zeros) reused := by
    refine .cons ⟨rfl, fun c hc => by cases hc⟩ rfl (.cons rfl rfl ?_)
    refine .cons ⟨rfl, fun c hc => ?_⟩ rfl (.cons (fun e he => ?_) rfl (.cons rfl rfl (.cons rfl rfl ?_)))
    · by_cases hc1 : c = 1
      · rw [hc1]
        decide
      · have hlive : Function.update (fun _ => false) 1 true c = true := hc
        rw [Function.update_of_ne hc1] at hlive
        cases hlive
    · cases List.mem_singleton.mp he
      exact ⟨5, _, rfl⟩
    · refine .cons ⟨rfl, fun c hc => ?_⟩ rfl (.cons rfl rfl trivial)
      -- both channels were destroyed
      have hlive : Function.update (Function.update (Function.update (Function.update
        (fun _ => false) 1 true) 2 true) 2 false) 1 false c = true := hc
      by_cases hc1 : c = 1
      · rw [hc1, Function.update_self] at hlive
        cases hlive
      rw [Function.update_of_ne hc1] at hlive
      by_cases hc2 : c = 2
      · rw [hc2, Function.update_self] at hlive
        cases hlive
      rw [Function.update_of_ne hc2, Function.update_of_ne hc2, Function.update_of_ne hc1] at hlive
      cases hlive
  refine ⟨hadm, ⟨_, _, .cons rfl (.cons rfl (.cons rfl (.cons rfl (.cons rfl (.cons rfl (.cons rfl
    (.cons rfl (.nil _)))))))), by decide, by decide⟩, registry_mirrors zeros hadm⟩

end Chaining.Poll.Registry
