import Chaining.Poll.Dispatch
import Chaining.Poll.Registry
import Mathlib.Data.List.Basic

/-! # Rounds of the loop

A wait leaves each event in its channel (`setRevent`), and the batch is served from there: what the
callbacks enable and disable goes to the event masks and to the kernel, and not to what is still to be
served. So a channel that an earlier callback of the batch has disabled is called all the same, and one
that was enabled or made is not before the next wait. `rounds_serve` says so of whole runs: what a round
invokes is what its events and the callbacks set before it tell, whatever its callbacks enable and
disable, on any channels, and whatever they do to channels that were not reported; no channel is called
after it was destroyed; and at every wait the kernel has the masks as they are by then. -/

namespace Chaining.Poll.Round

open Chaining.Base.Runs Chaining.Outcome Chaining.Poll.Events Chaining.Poll.Epoller
open Chaining.Poll.Dispatch Chaining.Poll.Registry

variable {κ : Type*}

/-- Something the program does outside a batch; or a wait that returns with these events, and the batch
after it, in which the callbacks of the `i`-th channel do these things. -/
inductive Turn (κ : Type*) where
  | act (a : Act κ)
  | round (events : List (Addr × BitVec 32)) (acts : ℕ → Kind → List (Act κ))

/-- One turn of `loop`, with what happens in its batch. -/
def exec (s : State κ) : Turn κ → Except Fault (State κ × List Entry)
  | .act a => do return (← s.act willing a, [])
  | .round events acts => do
    let (s, activated) ← s.fillActivatedChannels events
    return dispatch willing acts 0 activated s

/-! ### What callbacks keep to -/

/-- Channels of the batch are enabled and disabled, and left alone otherwise. -/
def Outside (batch : List Addr) : Act κ → Prop
  | .construct c _ | .set c _ | .destroy c => c ∉ batch
  | .listen _ _ => True

/-- The acts of one callback are such, and each is one that the program may do then. -/
def ActsAdmit (batch : List Addr) : List (Act κ) → State κ → Prop
  | [], _ => True
  | a :: acts, s => Outside batch a ∧ Registry.Admits s (.act a) ∧
    ∀ s', s.act willing a = .ok s' → ActsAdmit batch acts s'

/-- Those of the callbacks of one channel that are invoked. -/
def SlotsAdmit (batch : List Addr) (acts : Kind → List (Act κ)) (c : Addr) :
    List Kind → State κ → Prop
  | [], _ => True
  | k :: ks, s =>
    if (s.memory c).serves k then
      ActsAdmit batch (acts k) s ∧ SlotsAdmit batch acts c ks (performAll willing (acts k) s).1
    else SlotsAdmit batch acts c ks s

/-- And those of the whole batch. -/
def BatchAdmits (batch : List Addr) (acts : ℕ → Kind → List (Act κ)) :
    ℕ → List Addr → State κ → Prop
  | _, [], _ => True
  | i, c :: rest, s => SlotsAdmit batch (acts i) c kinds s ∧
    BatchAdmits batch acts (i + 1) rest (handleEvent willing (acts i) c kinds s).1

/-- Outside a batch as in `Registry`; a wait reports each channel at most once. -/
def Admits (s : State κ) : Turn κ → Prop
  | .act a => Registry.Admits s (.act a)
  | .round events acts => Registry.Admits s (.wait events) ∧ (events.map Prod.fst).Nodup ∧
    ∀ t activated, s.fillActivatedChannels events = .ok (t, activated) →
      BatchAdmits activated acts 0 activated t

/-! ### What a round owes -/

/-- The entry is a call of a channel. -/
def isCall : Entry → Bool
  | .destroyed _ => false
  | _ => true

/-- The events and the callbacks, as they are at the wait, tell what the batch invokes. -/
def served (s : State κ) (events : List (Addr × BitVec 32)) : List Entry :=
  events.flatMap fun e => .handleEvent e.1 ::
    (kinds.filter ((s.memory e.1).setRevent e.2).serves).map (.callback e.1)

/-- **A round serves what was reported**, and no channel that was destroyed. -/
def Serves (s : State κ) : Turn κ → Prop
  | .act _ => True
  | .round events acts => ∀ s' es, exec s (.round events acts) = .ok (s', es) →
    es.filter isCall = served s events ∧ Safe es

/-! ### What acts keep -/

/-- All that the turn does, in its callbacks or outside a batch, is of this kind. -/
def Turn.Only (G : Act κ → Prop) : Turn κ → Prop
  | .act a => G a
  | .round _ acts => ∀ i k, ∀ a ∈ acts i k, G a

/-- **What acts of a kind keep**, as long as they are admitted, and what a wait leaves in the channels
keeps too. The registry is in order with it. -/
structure Keeps (J : State κ → Prop) (G : Act κ → Prop) : Prop where
  inv : ∀ s, J s → Inv s
  act : ∀ s a s', J s → G a → Registry.Admits s (.act a) → s.act willing a = .ok s' → J s'
  report : ∀ s c revent, J s → s.live c = true → J (s.modify c (·.setRevent revent))

variable {s s' : State κ} {batch : List Addr} {c : Addr} {J : State κ → Prop} {G : Act κ → Prop}

/-- An act that the program may do succeeds. -/
theorem act_ok (h : Inv s) {a : Act κ} (hadm : Registry.Admits s (.act a)) :
    ∃ s', s.act willing a = .ok s' ∧ Inv s' := by
  obtain ⟨s', cs, he, hI⟩ := Registry.exec_ok h hadm
  obtain ⟨p, hp, hret⟩ := bind_eq_ok.mp he
  cases hret
  exact ⟨_, hp, hI⟩

/-- All acts keep the registry. -/
theorem keeps_inv : Keeps (Inv (κ := κ)) fun _ => True where
  inv _ h := h
  act s a s' h _ hadm he := by
    obtain ⟨s'', he', hI⟩ := act_ok h hadm
    cases he.symm.trans he'
    exact hI
  report _ _ _ h _ := inv_modify h ⟨rfl, rfl⟩

/-! ### Channels of the batch -/

/-- The channels of the batch serve the same in both states. -/
def Alike (batch : List Addr) (s s' : State κ) : Prop :=
  ∀ c ∈ batch, (s'.memory c).serves = (s.memory c).serves

theorem Alike.trans {s'' : State κ} (h : Alike batch s s') (h' : Alike batch s' s'') :
    Alike batch s s'' := fun c hc => (h' c hc).trans (h c hc)

/-- What is done to a channel outside the batch. -/
theorem alike_of_memory (hc : c ∉ batch) (h : ∀ c', c' ≠ c → s'.memory c' = s.memory c') :
    Alike batch s s' := fun c' hc' => by
  rw [h c' fun heq => hc (heq ▸ hc')]

/-- What a channel serves is not what it asks for. -/
theorem serves_apply (m : Listen) (c : Channel κ) : (m.apply c).serves = c.serves := by
  cases m <;> rfl

/-- A registered channel serves what it did. -/
theorem alike_registered (batch : List Addr) (s : State κ) (c : Addr) (m : Listen) :
    Alike batch s (registered s c (m.apply (s.memory c))) := by
  intro c' _
  unfold registered
  dsimp only
  by_cases hc : c' = c
  · rw [hc, Function.update_self, serves_apply]
  · rw [Function.update_of_ne hc]

theorem set_ok (hc : s.live c = true) (m : Setter κ) :
    s.act willing (.set c m) = .ok (s.modify c m.apply) :=
  if_neg (by rw [hc]; decide)

/-- The channels of the batch are as they were, as far as they serve. -/
theorem act_alike (h : Inv s) {a : Act κ} (hout : Outside batch a) (hadm : Registry.Admits s (.act a))
    (he : s.act willing a = .ok s') : Alike batch s s' := by
  cases a with
  | construct c fd =>
    cases he
    exact alike_of_memory hout fun c' hne => State.modify_memory_of_ne s hne _
  | listen c m =>
    cases he.symm.trans (listen_ok h hadm m)
    exact alike_registered batch s c m
  | set c m =>
    cases he.symm.trans (set_ok hadm m)
    exact alike_of_memory hout fun c' hne => State.modify_memory_of_ne s hne _
  | destroy c =>
    cases he.symm.trans (destroy_eq h hadm)
    exact alike_of_memory hout fun c' hne => Function.update_of_ne hne ..

/-! ### The batch -/

/-- **A part of a batch**, from one state to another: these calls are made in it, what is destroyed is not
in the batch, the channels of the batch serve what they did, and what acts keep is kept. -/
structure Part (J : State κ → Prop) (batch : List Addr) (s s' : State κ) (calls es : List Entry) :
    Prop where
  kept : J s'
  calls : es.filter isCall = calls
  spared : ∀ c, .destroyed c ∈ es → c ∉ batch
  alike : Alike batch s s'

theorem Part.nil (h : J s) : Part J batch s s [] [] :=
  ⟨h, rfl, fun _ hc => absurd hc List.not_mem_nil, fun _ _ => rfl⟩

/-- One part after the other. -/
theorem Part.append {s'' : State κ} {calls calls' es es' : List Entry} (h : Part J batch s s' calls es)
    (h' : Part J batch s' s'' calls' es') : Part J batch s s'' (calls ++ calls') (es ++ es') where
  kept := h'.kept
  calls := by rw [List.filter_append, h.calls, h'.calls]
  spared c hc := (List.mem_append.mp hc).elim (h.spared c) (h'.spared c)
  alike := h.alike.trans h'.alike

/-- A call before a part. -/
theorem Part.cons {e : Entry} {calls es : List Entry} (he : isCall e = true)
    (h : Part J batch s s' calls es) : Part J batch s s' (e :: calls) (e :: es) where
  kept := h.kept
  calls := by rw [List.filter_cons_of_pos he, h.calls]
  spared c hc := by
    rcases List.mem_cons.mp hc with rfl | hc
    · cases he
    · exact h.spared c hc
  alike := h.alike

/-- **A callback** makes no calls. -/
theorem performAll_part (hJ : Keeps J G) : ∀ (acts : List (Act κ)) {s : State κ}, J s →
    (∀ a ∈ acts, G a) → ActsAdmit batch acts s →
      Part J batch s (performAll willing acts s).1 [] (performAll willing acts s).2
  | [], _, h, _, _ => .nil h
  | a :: acts, s, h, hG, hadm => by
    have hI := hJ.inv s h
    obtain ⟨s', he, -⟩ := act_ok hI hadm.2.1
    have h' : J s' := hJ.act s a s' h (hG a List.mem_cons_self) hadm.2.1 he
    have hown : Part J batch s s' [] (Act.entries a) := by
      refine ⟨h', ?_, fun c hc => ?_, act_alike hI hadm.1 hadm.2.1 he⟩
      · cases a <;> rfl
      · cases a with
        | destroy c' =>
          cases List.mem_singleton.mp hc
          exact hadm.1
        | construct | listen | set => exact absurd hc List.not_mem_nil
    have hrest := performAll_part hJ acts h' (fun a' ha' => hG a' (List.mem_cons_of_mem a ha'))
      (hadm.2.2 s' he)
    simp only [performAll, he]
    exact hown.append hrest

/-- **One channel**: the callbacks that are due at the beginning are invoked. -/
theorem handleEvent_part (hJ : Keeps J G) (acts : Kind → List (Act κ)) (hG : ∀ k, ∀ a ∈ acts k, G a)
    (hc : c ∈ batch) : ∀ (ks : List Kind) {s : State κ}, J s → SlotsAdmit batch acts c ks s →
      Part J batch s (handleEvent willing acts c ks s).1
        ((ks.filter (s.memory c).serves).map (.callback c)) (handleEvent willing acts c ks s).2
  | [], _, h, _ => .nil h
  | k :: ks, s, h, hadm => by
    unfold SlotsAdmit at hadm
    unfold handleEvent
    by_cases hk : (s.memory c).serves k = true
    · rw [if_pos hk] at hadm
      have hown := performAll_part hJ (acts k) h (hG k) hadm.1
      have hrest := handleEvent_part hJ acts hG hc ks hown.kept hadm.2
      rw [hown.alike c hc] at hrest
      rw [if_pos hk, List.filter_cons_of_pos hk, List.map_cons]
      exact (hown.append hrest).cons rfl
    · rw [if_neg hk] at hadm ⊢
      rw [List.filter_cons_of_neg hk]
      exact handleEvent_part hJ acts hG hc ks h hadm

/-- **The batch**: every channel serves what it would have served at its beginning. -/
theorem dispatch_part (hJ : Keeps J G) (acts : ℕ → Kind → List (Act κ))
    (hG : ∀ i k, ∀ a ∈ acts i k, G a) :
    ∀ (part : List Addr) (i : ℕ) {s : State κ}, part ⊆ batch → J s →
      BatchAdmits batch acts i part s →
        Part J batch s (dispatch willing acts i part s).1
          (part.flatMap fun c =>
            .handleEvent c :: (kinds.filter (s.memory c).serves).map (.callback c))
          (dispatch willing acts i part s).2
  | [], _, _, _, h, _ => .nil h
  | c :: rest, i, s, hpart, h, hadm => by
    obtain ⟨hc, hrest⟩ := List.cons_subset.mp hpart
    have hown := (handleEvent_part hJ (acts i) (hG i) hc kinds h hadm.1).cons (e := .handleEvent c) rfl
    have hothers := dispatch_part hJ acts hG rest (i + 1) hrest hown.kept hadm.2
    have hsame : (rest.flatMap fun c' => Entry.handleEvent c' ::
        (kinds.filter ((handleEvent willing (acts i) c kinds s).1.memory c').serves).map
          (.callback c')) =
        rest.flatMap fun c' =>
          .handleEvent c' :: (kinds.filter (s.memory c').serves).map (.callback c') :=
      List.flatMap_congr fun c' hc' => by rw [hown.alike c' (hrest hc')]
    rw [hsame] at hothers
    unfold dispatch
    rw [List.flatMap_cons]
    exact hown.append hothers

/-- What is destroyed outside the batch is not called in it. -/
theorem Part.safe {calls es : List Entry} (h : Part J batch s s' calls es)
    (hcalls : ∀ e ∈ es, (∃ c, e = .destroyed c) ∨ ∃ c ∈ batch, e.Calls c) : Safe es := by
  refine List.pairwise_of_forall_mem_list fun e he e' he' c hd hcall => ?_
  subst hd
  rcases hcalls e' he' with ⟨c', rfl⟩ | ⟨c', hc', hcall'⟩
  · rcases hcall with heq | ⟨k, heq⟩ <;> cases heq
  · have hsame : c = c' := by
      rcases hcall with rfl | ⟨k, rfl⟩ <;> rcases hcall' with heq | ⟨k', heq⟩ <;> cases heq <;> rfl
    exact h.spared c he (hsame ▸ hc')

/-! ### The wait -/

/-- **What a wait leaves in the channels**: in each that is reported once its events, and the others are
as they were. -/
theorem memory_filled : ∀ {events : List (Addr × BitVec 32)} {s s' : State κ} {cs : List Addr},
    s.fillActivatedChannels events = .ok (s', cs) → (events.map Prod.fst).Nodup →
      (∀ c ∉ events.map Prod.fst, s'.memory c = s.memory c) ∧
        ∀ e ∈ events, s'.memory e.1 = (s.memory e.1).setRevent e.2
  | [], s, s', cs, he, _ => by
    cases he
    exact ⟨fun _ _ => rfl, fun e he => absurd he List.not_mem_nil⟩
  | (c, ev) :: rest, s, s', cs, he, hnd => by
    rw [List.map_cons, List.nodup_cons] at hnd
    unfold State.fillActivatedChannels at he
    split_ifs at he
    obtain ⟨⟨t, cs'⟩, hrest, hret⟩ := bind_eq_ok.mp he
    cases hret
    obtain ⟨hothers, hreported⟩ := memory_filled hrest hnd.2
    constructor
    · intro c' hc'
      rw [List.map_cons, List.mem_cons, not_or] at hc'
      rw [hothers c' hc'.2, State.modify_memory_of_ne _ hc'.1]
    · intro e hmem
      rcases List.mem_cons.mp hmem with rfl | hmem
      · rw [hothers c hnd.1, State.modify_memory_self]
      · have hne : e.1 ≠ c := fun heq => hnd.1 (List.mem_map.mpr ⟨e, hmem, heq⟩)
        rw [hreported e hmem, State.modify_memory_of_ne _ hne]

theorem fillActivatedChannels_keeps (hJ : Keeps J G) : ∀ {events : List (Addr × BitVec 32)}
    {s s' : State κ} {cs : List Addr}, s.fillActivatedChannels events = .ok (s', cs) → J s → J s'
  | [], _, _, _, he, h => by
    cases he
    exact h
  | (c, ev) :: rest, s, s', cs, he, h => by
    unfold State.fillActivatedChannels at he
    split_ifs at he with hlive hmapped
    obtain ⟨⟨t, cs'⟩, hrest, hret⟩ := bind_eq_ok.mp he
    cases hret
    exact fillActivatedChannels_keeps hJ hrest (hJ.report s c ev h (by simpa using hlive))

/-- **One round** succeeds, keeps what its acts keep and serves what was reported. -/
theorem round_ok (hJ : Keeps J G) (h : J s) {events : List (Addr × BitVec 32)}
    {acts : ℕ → Kind → List (Act κ)} (hG : ∀ i k, ∀ a ∈ acts i k, G a)
    (hadm : Admits s (.round events acts)) : ∃ s' es,
      exec s (.round events acts) = .ok (s', es) ∧ J s' ∧ es.filter isCall = served s events ∧
        Safe es := by
  obtain ⟨hwait, hnd, hbatch⟩ := hadm
  obtain ⟨t, hfill, -⟩ := fillActivatedChannels_ok events (hJ.inv s h) hwait
  obtain ⟨-, hreported⟩ := memory_filled hfill hnd
  have hpart := dispatch_part hJ acts hG _ 0 (List.Subset.refl _)
    (fillActivatedChannels_keeps hJ hfill h) (hbatch t _ hfill)
  have hserved : ((events.map Prod.fst).flatMap fun c =>
      .handleEvent c :: (kinds.filter (t.memory c).serves).map (.callback c)) = served s events := by
    rw [List.flatMap_map]
    exact List.flatMap_congr fun e he => by rw [hreported e he]
  refine ⟨_, _, ?_, hpart.kept, hpart.calls.trans hserved,
    hpart.safe (dispatch_entries willing acts 0 (events.map Prod.fst) t)⟩
  show s.fillActivatedChannels events >>= _ = _
  rw [hfill]
  rfl

/-! ### Runs -/

theorem exec_act {a : Act κ} (h : s.act willing a = .ok s') : exec s (.act a) = .ok (s', []) := by
  rw [exec, h]
  rfl

/-- **One turn** likewise. -/
theorem exec_ok (hJ : Keeps J G) (h : J s) {t : Turn κ} (hG : t.Only G) (hadm : Admits s t) :
    (∃ s' es, exec s t = .ok (s', es) ∧ J s') ∧ Serves s t := by
  cases t with
  | act a =>
    obtain ⟨s', he, -⟩ := act_ok (hJ.inv s h) hadm
    exact ⟨⟨s', [], exec_act he, hJ.act s a s' h hG hadm he⟩, trivial⟩
  | round events acts =>
    obtain ⟨s', es, he, h', hserves⟩ := round_ok hJ h hG hadm
    refine ⟨⟨s', es, he, h'⟩, fun s'' es' he' => ?_⟩
    cases he.symm.trans he'
    exact hserves

/-- Any turn does what acts may do. -/
theorem Turn.only_true (t : Turn κ) : t.Only fun _ => True := by
  cases t with
  | act a => trivial
  | round events acts => exact fun _ _ _ _ => trivial

/-- **Rounds serve what was reported.** In every run of the loop, from one without channels, each batch
calls the channels that were reported, in this order, and of each the callbacks that are set and due by
the events reported, whatever the callbacks of the batch enable and disable and whatever they do to
other channels; none that was destroyed is called. The registry and the interest list stay equal, so
that the next wait goes by all of that. -/
theorem rounds_serve (memory : Addr → Channel κ) {turns : List (Turn κ)}
    (hadm : Along exec Admits (init memory) turns) :
    (∃ answers s, Run exec (init memory) turns answers s ∧ Mirrored s) ∧
      Along exec Serves (init memory) turns := by
  obtain ⟨⟨answers, s, hrun, hI⟩, hserves⟩ :=
    exists_run_along (fun _ t h ha => exec_ok keeps_inv h t.only_true ha) (inv_init memory) hadm
  exact ⟨⟨answers, s, hrun, hI.mirrored⟩, hserves⟩

/-- Two channels have something to read, and the first one's callback makes a third channel and disables
the second. -/
def making : List (Turn ℕ) :=
  [.act (.construct 1 5), .act (.set 1 (.readCallback (some 1))), .act (.listen 1 .enableRead),
    .act (.construct 2 6), .act (.set 2 (.readCallback (some 2))), .act (.listen 2 .enableRead),
    .round [(1, EPOLLIN), (2, EPOLLIN)] fun i _ =>
      if i = 0 then [.construct 3 7, .listen 3 .enableRead, .listen 2 .disableReading] else []]

/-- The second one is called all the same, and no longer asks to be. -/
theorem rounds_serve_making :
    (∃ answers s, Run exec (init zeros) making answers s ∧
      answers.getLast? = some [.handleEvent 1, .callback 1 .read, .handleEvent 2, .callback 2 .read] ∧
      s.interest 6 = some (2, 0) ∧ s.interest 7 = some (3, Event.IN.bits)) ∧
    (∃ answers s, Run exec (init zeros) making answers s ∧ Mirrored s) ∧
      Along exec Serves (init zeros) making := by
  refine ⟨⟨_, _, .cons rfl (.cons rfl (.cons rfl (.cons rfl (.cons rfl (.cons rfl
    (.cons rfl (.nil _))))))), by decide, by decide, by decide⟩, rounds_serve zeros ?_⟩
  refine .cons ⟨rfl, fun c hc => by cases hc⟩ rfl (.cons rfl rfl (.cons rfl rfl ?_))
  refine .cons ⟨rfl, fun c hc => ?_⟩ rfl (.cons rfl rfl (.cons rfl rfl
    ⟨⟨fun e he => ?_, by decide, fun t activated he => ?_⟩, fun _ _ _ => trivial⟩))
  · by_cases hc1 : c = 1
    · rw [hc1]
      decide
    · have hlive : Function.update (fun _ => false) 1 true c = true := hc
      rw [Function.update_of_ne hc1] at hlive
      cases hlive
  · rcases List.mem_cons.mp he with rfl | he
    · exact ⟨5, _, rfl⟩
    · cases List.mem_singleton.mp he
      exact ⟨6, _, rfl⟩
  · cases he
    refine And.intro (And.intro (And.intro (show 3 ∉ [1, 2] by decide)
      (And.intro (And.intro rfl fun c hc => ?_) ?_)) ?_) (And.intro ?_ trivial)
    · have hlive : Function.update (Function.update (fun _ => false) 1 true) 2 true c = true := hc
      by_cases hc2 : c = 2
      · rw [hc2]
        decide
      by_cases hc1 : c = 1
      · rw [hc1]
        decide
      rw [Function.update_of_ne hc2, Function.update_of_ne hc1] at hlive
      cases hlive
    · intro s' he
      cases he
      refine And.intro trivial (And.intro rfl fun s'' he => ?_)
      cases he
      exact And.intro trivial (And.intro rfl fun _ _ => trivial)
    · exact trivial
    · exact And.intro trivial trivial

end Chaining.Poll.Round
