import Chaining.Base.Runs
import Chaining.Poll.Epoller

/-! # Dispatching a batch

The loop calls `handleEvent` of every channel the wait has activated, and that looks at the channel's
four callbacks one after the other. A callback may do anything to any channel. The list of activated
channels holds plain pointers, and the tie that a channel has is not looked at: a channel that a
callback destroys is called all the same, if it stands later in the batch or is not done with its own
callbacks; what its destructor left in memory is then taken for its events and callbacks.

`Safe` says of what happened in a batch that no channel was called after it was destroyed.
`dispatch_safe_iff` gives the exact condition on the callbacks. -/

namespace Chaining.Poll.Dispatch

open Chaining.Base.Runs Chaining.Outcome Chaining.Poll.Events Chaining.Poll.Epoller

variable {κ : Type*}

/-- What happens in a batch: the loop calls `handleEvent` of a channel, that invokes a callback of the
channel, a channel's destructor has run. -/
inductive Entry where
  | handleEvent (c : Addr)
  | callback (c : Addr) (k : Kind)
  | destroyed (c : Addr)
  deriving DecidableEq

def Act.entries : Act κ → List Entry
  | .destroy c => [.destroyed c]
  | _ => []

/-- A callback does these things one after the other. What the program may not do, such as calling a
method of a channel that is not alive, is left out. -/
def performAll (refuse : CtlOp → Bool) : List (Act κ) → State κ → State κ × List Entry
  | [], s => (s, [])
  | a :: acts, s =>
    match s.act refuse a with
    | .error _ => performAll refuse acts s
    | .ok s' =>
      let (s'', es) := performAll refuse acts s'
      (s'', Act.entries a ++ es)

/-- `Channel::handleEvent` from some of its four callbacks on; `acts` is what each callback does. -/
def handleEvent (refuse : CtlOp → Bool) (acts : Kind → List (Act κ)) (c : Addr) :
    List Kind → State κ → State κ × List Entry
  | [], s => (s, [])
  | k :: ks, s =>
    if (s.memory c).serves k then
      let (s₁, es₁) := performAll refuse (acts k) s
      let (s₂, es₂) := handleEvent refuse acts c ks s₁
      (s₂, .callback c k :: (es₁ ++ es₂))
    else handleEvent refuse acts c ks s

/-- The order of the callbacks in `handleEvent`. -/
def kinds : List Kind := [.close, .error, .read, .write]

/-- The loop over the activated channels, from the `i`-th on; `acts i` is what the callbacks of the
`i`-th do. -/
def dispatch (refuse : CtlOp → Bool) (acts : ℕ → Kind → List (Act κ)) :
    ℕ → List Addr → State κ → State κ × List Entry
  | _, [], s => (s, [])
  | i, c :: rest, s =>
    let (s₁, es₁) := handleEvent refuse (acts i) c kinds s
    let (s₂, es₂) := dispatch refuse acts (i + 1) rest s₁
    (s₂, .handleEvent c :: (es₁ ++ es₂))

/-- The entry calls the channel. -/
def Entry.Calls (c : Addr) (e : Entry) : Prop := e = .handleEvent c ∨ ∃ k, e = .callback c k

/-- **No channel is called after it was destroyed.** A channel is known by its address, as in the list
of activated channels: one made anew where another was destroyed in the batch counts as destroyed. -/
def Safe (es : List Entry) : Prop := es.Pairwise fun e e' => ∀ c, e = .destroyed c → ¬ e'.Calls c

/-- The callbacks of one channel that are invoked destroy no channel of `rest`; and one that destroys
the channel itself leaves none of its later callbacks due. -/
def SlotsSpare (refuse : CtlOp → Bool) (acts : Kind → List (Act κ)) (c : Addr) (rest : List Addr) :
    List Kind → State κ → Prop
  | [], _ => True
  | k :: ks, s =>
    if (s.memory c).serves k then
      (∀ c' ∈ rest, .destroyed c' ∉ (performAll refuse (acts k) s).2) ∧
        (.destroyed c ∈ (performAll refuse (acts k) s).2 →
          ∀ k' ∈ ks, ((performAll refuse (acts k) s).1.memory c).serves k' = false) ∧
        SlotsSpare refuse acts c rest ks (performAll refuse (acts k) s).1
    else SlotsSpare refuse acts c rest ks s

/-- **The condition**, for every channel of the batch and those that stand later. -/
def Spares (refuse : CtlOp → Bool) (acts : ℕ → Kind → List (Act κ)) :
    ℕ → List Addr → State κ → Prop
  | _, [], _ => True
  | i, c :: rest, s =>
    SlotsSpare refuse (acts i) c rest kinds s ∧
      Spares refuse acts (i + 1) rest (handleEvent refuse (acts i) c kinds s).1

variable (refuse : CtlOp → Bool)

/-! ### What the entries are -/

theorem performAll_entries : ∀ (acts : List (Act κ)) (s : State κ),
    ∀ e ∈ (performAll refuse acts s).2, ∃ c, e = .destroyed c
  | [], _, e, he => absurd he List.not_mem_nil
  | a :: acts, s, e, he => by
    unfold performAll at he
    match hact : s.act refuse a with
    | .error _ =>
      rw [hact] at he
      exact performAll_entries acts s e he
    | .ok s' =>
      rw [hact] at he
      rcases List.mem_append.mp he with he | he
      · cases a with
        | destroy c => exact ⟨c, List.mem_singleton.mp he⟩
        | construct | listen | set => exact absurd he List.not_mem_nil
      · exact performAll_entries acts s' e he

theorem handleEvent_entries (acts : Kind → List (Act κ)) (c : Addr) :
    ∀ (ks : List Kind) (s : State κ), ∀ e ∈ (handleEvent refuse acts c ks s).2,
      (∃ c', e = .destroyed c') ∨ ∃ k, e = .callback c k
  | [], _, e, he => absurd he List.not_mem_nil
  | k :: ks, s, e, he => by
    unfold handleEvent at he
    split_ifs at he
    · rcases List.mem_cons.mp he with rfl | he
      · exact Or.inr ⟨k, rfl⟩
      · rcases List.mem_append.mp he with he | he
        · exact Or.inl (performAll_entries refuse _ _ e he)
        · exact handleEvent_entries acts c ks _ e he
    · exact handleEvent_entries acts c ks s e he

theorem dispatch_entries (acts : ℕ → Kind → List (Act κ)) :
    ∀ (i : ℕ) (batch : List Addr) (s : State κ), ∀ e ∈ (dispatch refuse acts i batch s).2,
      (∃ c', e = .destroyed c') ∨ ∃ c ∈ batch, e.Calls c
  | _, [], _, e, he => absurd he List.not_mem_nil
  | i, c :: rest, s, e, he => by
    unfold dispatch at he
    rcases List.mem_cons.mp he with rfl | he
    · exact Or.inr ⟨c, List.mem_cons_self, Or.inl rfl⟩
    · rcases List.mem_append.mp he with he | he
      · rcases handleEvent_entries refuse (acts i) c kinds s e he with hd | hk
        · exact Or.inl hd
        · exact Or.inr ⟨c, List.mem_cons_self, Or.inr hk⟩
      · rcases dispatch_entries acts (i + 1) rest _ e he with hd | ⟨c', hc', he⟩
        · exact Or.inl hd
        · exact Or.inr ⟨c', List.mem_cons_of_mem c hc', he⟩

/-- Every channel of the batch is called. -/
theorem handleEvent_mem_dispatch (acts : ℕ → Kind → List (Act κ)) {c : Addr} :
    ∀ (i : ℕ) {batch : List Addr} (s : State κ), c ∈ batch →
      .handleEvent c ∈ (dispatch refuse acts i batch s).2
  | i, c' :: rest, s, hc => by
    unfold dispatch
    rcases List.mem_cons.mp hc with rfl | hc
    · exact List.mem_cons_self
    · exact List.mem_cons_of_mem _
        (List.mem_append_right _ (handleEvent_mem_dispatch acts (i + 1) _ hc))

/-- A callback of the channel is invoked if one is due at the beginning. -/
theorem exists_callback_iff (acts : Kind → List (Act κ)) (c : Addr) :
    ∀ (ks : List Kind) (s : State κ),
      (∃ k, .callback c k ∈ (handleEvent refuse acts c ks s).2) ↔
        ∃ k ∈ ks, (s.memory c).serves k = true
  | [], s => by simp [handleEvent]
  | k :: ks, s => by
    unfold handleEvent
    split_ifs with hk
    · exact iff_of_true ⟨k, List.mem_cons_self⟩ ⟨k, List.mem_cons_self, hk⟩
    · rw [exists_callback_iff acts c ks s]
      constructor
      · exact fun ⟨k', hk', hs⟩ => ⟨k', List.mem_cons_of_mem k hk', hs⟩
      · rintro ⟨k', hk', hs⟩
        rcases List.mem_cons.mp hk' with rfl | hk'
        · exact absurd hs hk
        · exact ⟨k', hk', hs⟩

/-! ### Safety -/

/-- Destructors alone call nothing. -/
theorem safe_performAll (acts : List (Act κ)) (s : State κ) : Safe (performAll refuse acts s).2 := by
  refine List.pairwise_of_forall_mem_list fun e _ e' he' c _ hcalls => ?_
  obtain ⟨c', rfl⟩ := performAll_entries refuse acts s e' he'
  rcases hcalls with h | ⟨k, h⟩ <;> cases h

/-- A call before other entries. -/
theorem safe_cons_of_calls {e : Entry} {c : Addr} (he : e.Calls c) (es : List Entry) :
    Safe (e :: es) ↔ Safe es := by
  unfold Safe
  rw [List.pairwise_cons]
  refine and_iff_right fun e' _ c' hd => ?_
  rcases he with rfl | ⟨k, rfl⟩ <;> cases hd

/-- What comes first must not destroy what is called after it. -/
theorem safe_append {es es' : List Entry} :
    Safe (es ++ es') ↔ Safe es ∧ Safe es' ∧
      ∀ c, .destroyed c ∈ es → ∀ e ∈ es', ¬ e.Calls c := by
  unfold Safe
  rw [List.pairwise_append]
  refine and_congr_right fun _ => and_congr_right fun _ => ?_
  constructor
  · exact fun h c hc e he => h _ hc e he c rfl
  · rintro h e he e' he' c rfl
    exact h c he e' he'

/-- **One channel**: nothing goes wrong among its callbacks, nor for those that stand later, exactly if
they spare both. -/
theorem handleEvent_safe_iff (acts : Kind → List (Act κ)) (c : Addr) (rest : List Addr) :
    ∀ (ks : List Kind) (s : State κ),
      (Safe (handleEvent refuse acts c ks s).2 ∧
        ∀ c' ∈ rest, .destroyed c' ∉ (handleEvent refuse acts c ks s).2) ↔
          SlotsSpare refuse acts c rest ks s
  | [], s => by simp [handleEvent, SlotsSpare, Safe]
  | k :: ks, s => by
    unfold handleEvent SlotsSpare
    split_ifs
    · have hcross : (∀ c', .destroyed c' ∈ (performAll refuse (acts k) s).2 →
          ∀ e ∈ (handleEvent refuse acts c ks (performAll refuse (acts k) s).1).2, ¬ e.Calls c') ↔
            (.destroyed c ∈ (performAll refuse (acts k) s).2 →
              ∀ k' ∈ ks, ((performAll refuse (acts k) s).1.memory c).serves k' = false) := by
        have hiff := exists_callback_iff refuse acts c ks (performAll refuse (acts k) s).1
        constructor
        · intro h hd k' hk'
          by_contra hs
          obtain ⟨k'', hmem⟩ := hiff.mpr ⟨k', hk', by simpa using hs⟩
          exact h c hd _ hmem (Or.inr ⟨k'', rfl⟩)
        · intro h c' hd e he hcalls
          rcases handleEvent_entries refuse acts c ks _ e he with ⟨c'', rfl⟩ | ⟨k', rfl⟩
          · rcases hcalls with h | ⟨k, h⟩ <;> cases h
          · have hcc : c' = c := by
              rcases hcalls with h | ⟨k, h⟩ <;> cases h
              rfl
            obtain ⟨k'', hk'', hs⟩ := hiff.mp ⟨k', he⟩
            rw [h (hcc ▸ hd) k'' hk''] at hs
            cases hs
      have ih := handleEvent_safe_iff acts c rest ks (performAll refuse (acts k) s).1
      dsimp only
      rw [safe_cons_of_calls (Or.inr ⟨k, rfl⟩), safe_append, hcross, ← ih]
      have hsplit : ∀ c', .destroyed c' ∉ Entry.callback c k :: ((performAll refuse (acts k) s).2 ++
          (handleEvent refuse acts c ks (performAll refuse (acts k) s).1).2) ↔
            .destroyed c' ∉ (performAll refuse (acts k) s).2 ∧
              .destroyed c' ∉ (handleEvent refuse acts c ks (performAll refuse (acts k) s).1).2 := by
        simp
      constructor
      · rintro ⟨⟨-, hsafe, hown⟩, hrest⟩
        exact ⟨fun c' hc' => ((hsplit c').mp (hrest c' hc')).1, hown, hsafe,
          fun c' hc' => ((hsplit c').mp (hrest c' hc')).2⟩
      · rintro ⟨hrest, hown, hsafe, hrest'⟩
        exact ⟨⟨safe_performAll refuse _ _, hsafe, hown⟩, fun c' hc' =>
          (hsplit c').mpr ⟨hrest c' hc', hrest' c' hc'⟩⟩
    · exact handleEvent_safe_iff acts c rest ks s

/-- **The exact condition.** Whatever channels there are and whichever of them the wait has activated,
no channel is called after it was destroyed if and only if no callback that is invoked destroys a
channel that stands later in the batch, nor its own channel while a later callback of that is due. -/
theorem dispatch_safe_iff (acts : ℕ → Kind → List (Act κ)) :
    ∀ (i : ℕ) (batch : List Addr) (s : State κ),
      Safe (dispatch refuse acts i batch s).2 ↔ Spares refuse acts i batch s
  | _, [], _ => iff_of_true List.Pairwise.nil trivial
  | i, c :: rest, s => by
    have ih := dispatch_safe_iff acts (i + 1) rest (handleEvent refuse (acts i) c kinds s).1
    unfold dispatch Spares
    dsimp only
    rw [safe_cons_of_calls (Or.inl rfl), safe_append, ih, ← handleEvent_safe_iff]
    have hcross : (∀ c', .destroyed c' ∈ (handleEvent refuse (acts i) c kinds s).2 →
        ∀ e ∈ (dispatch refuse acts (i + 1) rest (handleEvent refuse (acts i) c kinds s).1).2,
          ¬ e.Calls c') ↔
            ∀ c' ∈ rest, .destroyed c' ∉ (handleEvent refuse (acts i) c kinds s).2 := by
      constructor
      · exact fun h c' hc' hd => h c' hd _ (handleEvent_mem_dispatch refuse acts (i + 1) _ hc')
          (Or.inl rfl)
      · intro h c' hd e he hcalls
        rcases dispatch_entries refuse acts (i + 1) rest _ e he with ⟨c'', rfl⟩ | ⟨c'', hc'', hcalls'⟩
        · rcases hcalls with h | ⟨k, h⟩ <;> cases h
        · have hcc : c' = c'' := by
            rcases hcalls with rfl | ⟨k, rfl⟩ <;> rcases hcalls' with h | ⟨k', h⟩ <;> cases h <;> rfl
          exact h c'' hc'' (hcc ▸ hd)
    rw [hcross]
    constructor
    · exact fun ⟨hsafe, hrest, hnone⟩ => ⟨⟨hsafe, hnone⟩, hrest⟩
    · exact fun ⟨⟨hsafe, hnone⟩, hrest⟩ => ⟨hsafe, hrest, hnone⟩

/-- Two channels are read from, and both have something to read. -/
def twoReady : List (Op ℕ) :=
  [.act (.construct 1 5), .act (.set 1 (.readCallback (some 1))), .act (.listen 1 .enableRead),
    .act (.construct 2 6), .act (.set 2 (.readCallback (some 2))), .act (.listen 2 .enableRead),
    .wait [(1, EPOLLIN), (2, EPOLLIN)]]

/-- **A destroyed channel is called**: the read callback of the first channel destroys the second, whose
`handleEvent` and read callback are then called. -/
theorem destroyed_channel_called :
    ∃ answers s, Run (State.exec willing) (init zeros) twoReady answers s ∧
      answers.getLast? = some [1, 2] ∧
      (dispatch willing (fun i _ => if i = 0 then [.destroy 2] else []) 0 [1, 2] s).2 =
        [.handleEvent 1, .callback 1 .read, .destroyed 2, .handleEvent 2, .callback 2 .read] ∧
      ¬ Safe (dispatch willing (fun i _ => if i = 0 then [.destroy 2] else []) 0 [1, 2] s).2 := by
  have hunsafe : ∀ es : List Entry,
      es = [.handleEvent 1, .callback 1 .read, .destroyed 2, .handleEvent 2, .callback 2 .read] →
        ¬ Safe es := by
    rintro _ rfl h
    simp [Safe, Entry.Calls] at h
  refine ⟨_, _, .cons rfl (.cons rfl (.cons rfl (.cons rfl (.cons rfl (.cons rfl
    (.cons rfl (.nil _))))))), rfl, ?_, hunsafe _ ?_⟩ <;> decide

end Chaining.Poll.Dispatch
