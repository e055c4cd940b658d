import Chaining.Poll.Round

/-! # Channels that are left alone

The wake-up sets up the channel of its event descriptor when the loop is made, and from then on nothing
enables, disables or destroys it; a listening socket does likewise with its own channel. All that the
loop is told from outside depends on such a channel being watched.

`left_alone_heard`: a channel that is registered and then left alone stays as it was set up, in the map and
in the kernel, whatever is done to other channels, in callbacks and outside; and in every batch those of
its callbacks are invoked that are set and due, once for each time it is reported. For the wake-up this
means that its counter is read whenever the event descriptor is reported (`wakeUp_heard`). -/

namespace Chaining.Poll.Alone

open Chaining.Base.Runs Chaining.Outcome Chaining.Poll.Events Chaining.Poll.Epoller
open Chaining.Poll.Dispatch Chaining.Poll.Registry Chaining.Poll.Round

variable {κ : Type*}

/-- The channel that is acted on. -/
def target : Act κ → Addr
  | .construct c _ | .listen c _ | .set c _ | .destroy c => c

/-- `WakeUp::WakeUp`, with the address of its `channel_` and its event descriptor. -/
def wakeUp (channel : Addr) (fd : ℤ) (handleRead : κ) : List (Turn κ) :=
  [.act (.construct channel fd), .act (.set channel (.readCallback (some handleRead))),
    .act (.listen channel .enableRead)]

/-- The callback that was invoked, if the channel's. -/
def callbackOf (c : Addr) : Entry → Option Kind
  | .callback c' k => if c' = c then some k else none
  | _ => none

/-- **The channel, set up as `ch`, is heard**: its descriptor is mapped to it, the kernel watches that for
the events asked for, and a batch invokes what is set and due of its callbacks, by the events that are
reported for it. -/
structure Heard (c : Addr) (ch : Channel κ) (s : State κ) (t : Turn κ) : Prop where
  mapped : s.channels ch.fd = some c
  watched : s.interest ch.fd = some (c, ch.event)
  invoked : ∀ events acts, t = .round events acts → ∀ s' es, exec s t = .ok (s', es) →
    es.filterMap (callbackOf c) =
      (events.filter (·.1 = c)).flatMap fun e => kinds.filter (ch.setRevent e.2).serves

/-- **The invariant**: the channel is registered, and as it was set up but for the events reported. -/
structure Settled (c : Addr) (ch : Channel κ) (s : State κ) : Prop where
  inv : Inv s
  live : s.live c = true
  same : ∀ revent, (s.memory c).setRevent revent = ch.setRevent revent
  mapped : s.channels ch.fd = some c

variable {s s' : State κ} {c : Addr} {ch : Channel κ}

theorem Settled.fd_eq (h : Settled c ch s) : (s.memory c).fd = ch.fd := by
  have hsame := congrArg Channel.fd (h.same 0)
  exact hsame

/-- The kernel has what was asked for. -/
theorem Settled.interest (h : Settled c ch s) : s.interest ch.fd = some (c, ch.event) := by
  have hsame := congrArg Channel.event (h.same 0)
  have hevent : (s.memory c).event = ch.event := hsame
  rw [h.inv.interest, h.mapped, Option.map_some, hevent]

/-- Other channels have other descriptors. -/
theorem Settled.fd_ne (h : Settled c ch s) {c' : Addr} (hc' : s.live c' = true) (hne : c' ≠ c) :
    ch.fd ≠ (s.memory c').fd := fun heq =>
  hne (h.inv.distinct c' c hc' h.live (heq.symm.trans h.fd_eq.symm))

/-- What leaves the channel and its entry as they are. -/
theorem Settled.frame (h : Settled c ch s) (hI : Inv s') (hlive : s'.live c = s.live c)
    (hmem : s'.memory c = s.memory c) (hmapped : s'.channels ch.fd = s.channels ch.fd) :
    Settled c ch s' where
  inv := hI
  live := hlive.trans h.live
  same revent := hmem ▸ h.same revent
  mapped := hmapped.trans h.mapped

/-- **Acts on other channels** leave it alone, and so do the events that are reported. -/
theorem keeps_settled (c : Addr) (ch : Channel κ) : Keeps (Settled c ch) (target · ≠ c) where
  inv _ h := h.inv
  act s a s' h hne hadm he := by
    have hI : Inv s' := keeps_inv.act s a s' h.inv trivial hadm he
    cases a with
    | construct c' fd =>
      cases he
      exact h.frame hI (Function.update_of_ne (Ne.symm hne) ..)
        (State.modify_memory_of_ne s (Ne.symm hne) _) rfl
    | listen c' m =>
      cases he.symm.trans (listen_ok h.inv hadm m)
      have hfd : ch.fd ≠ (m.apply (s.memory c')).fd := by
        rw [m.apply_fd]
        exact h.fd_ne hadm hne
      exact h.frame hI rfl (Function.update_of_ne (Ne.symm hne) ..) (Function.update_of_ne hfd ..)
    | set c' m =>
      cases he.symm.trans (set_ok hadm m)
      exact h.frame hI rfl (State.modify_memory_of_ne s (Ne.symm hne) _) rfl
    | destroy c' =>
      cases he.symm.trans (destroy_eq h.inv hadm)
      have hfd := h.fd_ne hadm hne
      refine h.frame hI (Function.update_of_ne (Ne.symm hne) ..) (Function.update_of_ne (Ne.symm hne) ..) ?_
      unfold unregistered registered
      dsimp only
      rw [Function.update_self]
      exact (Function.update_of_ne hfd ..).trans (Function.update_of_ne hfd ..)
  report s c' revent h hlive := by
    have hI : Inv (s.modify c' (·.setRevent revent)) := inv_modify h.inv ⟨rfl, rfl⟩
    by_cases hc : c' = c
    · subst hc
      refine ⟨hI, h.live, fun r => ?_, h.mapped⟩
      rw [State.modify_memory_self]
      exact h.same r
    · exact h.frame hI rfl (State.modify_memory_of_ne s (Ne.symm hc) _) rfl

/-! ### What is invoked -/

theorem callbackOf_filter (c : Addr) (es : List Entry) :
    (es.filter isCall).filterMap (callbackOf c) = es.filterMap (callbackOf c) := by
  rw [List.filterMap_filter]
  refine List.filterMap_congr fun e _ => ?_
  cases e <;> rfl

/-- One channel's call. -/
theorem callbackOf_call (c c' : Addr) (ks : List Kind) :
    (Entry.handleEvent c' :: ks.map (.callback c')).filterMap (callbackOf c) =
      if c' = c then ks else [] := by
  rw [List.filterMap_cons_none rfl, List.filterMap_map]
  split_ifs with hc
  · have hsome : callbackOf c ∘ Entry.callback c' = some := funext fun k => if_pos hc
    rw [hsome, List.filterMap_some]
  · exact List.filterMap_eq_nil_iff.mpr fun k _ => if_neg hc

/-- **What a round owes** to the channel. -/
theorem callbackOf_served (h : Settled c ch s) : ∀ events : List (Addr × BitVec 32),
    (served s events).filterMap (callbackOf c) =
      (events.filter (·.1 = c)).flatMap fun e => kinds.filter (ch.setRevent e.2).serves
  | [] => rfl
  | e :: events => by
    have ih := callbackOf_served h events
    unfold served at ih ⊢
    rw [List.flatMap_cons, List.filterMap_append, callbackOf_call, ih]
    by_cases hc : e.1 = c
    · rw [if_pos hc, List.filter_cons_of_pos (by simpa using hc), List.flatMap_cons, hc, h.same]
    · rw [if_neg hc, List.filter_cons_of_neg (by simpa using hc), List.nil_append]

/-! ### Runs -/

/-- **One turn** that leaves the channel alone. -/
theorem turn_heard (h : Settled c ch s) {t : Turn κ} (honly : t.Only (target · ≠ c))
    (hadm : Round.Admits s t) :
    (∃ s' es, exec s t = .ok (s', es) ∧ Settled c ch s') ∧ Heard c ch s t := by
  obtain ⟨hok, hserves⟩ := Round.exec_ok (keeps_settled c ch) h honly hadm
  refine ⟨hok, h.mapped, h.interest, ?_⟩
  rintro events acts rfl s' es he
  rw [← callbackOf_filter, (hserves s' es he).1, callbackOf_served h]

/-- **From the invariant on**, a run that leaves the channel alone. -/
theorem settled_heard (h : Settled c ch s) {rest : List (Turn κ)}
    (hadm : Along exec Round.Admits s rest) (hrest : ∀ t ∈ rest, t.Only (target · ≠ c)) :
    (∃ answers s', Run exec s rest answers s' ∧ s'.channels ch.fd = some c ∧
      s'.interest ch.fd = some (c, ch.event)) ∧ Along exec (Heard c ch) s rest := by
  have hboth : Along exec (fun s t => Round.Admits s t ∧ t.Only (target · ≠ c)) s rest :=
    along_and.mpr ⟨hadm, along_of_forall s hrest⟩
  obtain ⟨⟨answers, s', hrun, h'⟩, hheard⟩ :=
    exists_run_along (fun _ _ h ha => turn_heard h ha.2 ha.1) h hboth
  exact ⟨⟨answers, s', hrun, h'.mapped, h'.interest⟩, hheard⟩

/-- The channel that the constructor of the wake-up leaves, in memory that held `junk`. -/
def wakeUpChannel (fd : ℤ) (handleRead : κ) (junk : Channel κ) : Channel κ :=
  ((Channel.construct fd junk).setReadCallback (some handleRead)).enableRead

/-- It asks for what is to be read, and has no other callback. -/
theorem serves_wakeUpChannel (fd : ℤ) (handleRead : κ) (junk : Channel κ) (revent : BitVec 32) :
    kinds.filter ((wakeUpChannel fd handleRead junk).setRevent revent).serves =
      if Kind.read.due revent then [.read] else [] := by
  simp [kinds, wakeUpChannel, Channel.serves, Channel.setRevent, Channel.callback, Channel.construct,
    Channel.setReadCallback, Channel.enableRead, List.filter_cons]

/-- **The constructor** registers it. -/
theorem wakeUp_settled (memory : Addr → Channel κ) (c : Addr) (fd : ℤ) (handleRead : κ) :
    ∃ s, Run exec (init memory) (wakeUp c fd handleRead) [[], [], []] s ∧
      Settled c (wakeUpChannel fd handleRead (memory c)) s := by
  have h1 : Inv ((init memory).construct c fd) :=
    inv_construct (inv_init memory) rfl fun c' hc' => by cases hc'
  have hlive : ((init memory).construct c fd).live c = true := Function.update_self ..
  have h2 : Inv (((init memory).construct c fd).modify c (·.setReadCallback (some handleRead))) :=
    inv_modify h1 ⟨rfl, rfl⟩
  have hmem : (((init memory).construct c fd).modify c (·.setReadCallback (some handleRead))).memory c =
      (Channel.construct fd (memory c)).setReadCallback (some handleRead) := by
    rw [State.modify_memory_self]
    exact congrArg (Channel.setReadCallback · (some handleRead)) (Function.update_self ..)
  have hlisten := listen_ok h2 hlive .enableRead
  have h3 : Inv (registered _ c (Listen.enableRead.apply _)) :=
    inv_registered h2 hlive (Listen.enableRead.apply_fd _)
  rw [hmem] at hlisten h3
  exact ⟨_, .cons rfl (.cons (exec_act (set_ok hlive (.readCallback (some handleRead))))
    (.cons (exec_act hlisten) (.nil _))), h3, hlive,
    fun revent => congrArg (Channel.setRevent · revent) (Function.update_self ..),
    Function.update_self ..⟩

/-- **The wake-up is heard**: the kernel watches its event descriptor for what is to be read, and a batch
calls `handleRead` each time that is reported, and no other callback of the channel. -/
structure WakeUpHeard (c : Addr) (fd : ℤ) (s : State κ) (t : Turn κ) : Prop where
  watched : s.interest fd = some (c, Event.IN.bits)
  invoked : ∀ events acts, t = .round events acts → ∀ s' es, exec s t = .ok (s', es) →
    es.filterMap (callbackOf c) =
      (events.filter (·.1 = c)).flatMap fun e => if Kind.read.due e.2 then [.read] else []

/-- From its constructor on, in every run of the loop that does not act on its channel. -/
theorem wakeUp_heard (memory : Addr → Channel κ) {fd : ℤ} {handleRead : κ} {rest : List (Turn κ)}
    (hadm : Along exec Round.Admits (init memory) (wakeUp c fd handleRead ++ rest))
    (hrest : ∀ t ∈ rest, t.Only (target · ≠ c)) :
    ∃ s, Run exec (init memory) (wakeUp c fd handleRead) [[], [], []] s ∧
      Along exec (WakeUpHeard c fd) s rest := by
  obtain ⟨s, hrun, hsettled⟩ := wakeUp_settled memory c fd handleRead
  have hheard := (settled_heard hsettled (hrun.along_append hadm).2 hrest).2
  refine ⟨s, hrun, Along.of_invariant (I := fun _ => True) (fun s t _ h => ⟨?_, ?_⟩)
    (fun _ _ _ _ _ _ _ => trivial) trivial hheard⟩
  · have hevent : (wakeUpChannel fd handleRead (memory c)).event = Event.IN.bits := BitVec.zero_or
    rw [← hevent]
    exact h.watched
  · intro events acts ht s' es he
    rw [h.invoked events acts ht s' es he]
    exact List.flatMap_congr fun e _ => serves_wakeUpChannel fd handleRead (memory c) e.2

end Chaining.Poll.Alone
