import Chaining.Poll.Dispatch

/-! # Which callback an event reaches

`handleEvent` comes to the four kinds of callbacks in turn and invokes those whose events were
reported. But `setErrorCallback` assigns the write callback: an error callback is never invoked on an
error, and it takes the place of the write callback that was set before it. `reaches_iff` gives the
exact conditions, on the calls of the setters and on the events reported. -/

namespace Chaining.Poll.Callbacks

open Chaining.Poll.Events Chaining.Poll.Epoller Chaining.Poll.Dispatch

variable {κ : Type*}

/-- What `handleEvent` invokes, in this order, when the callbacks leave the channel alone. -/
def invoked (c : Channel κ) : List (Kind × κ) :=
  kinds.filterMap fun k => (if k.due c.revent then c.callback k else none).map fun cb => (k, cb)

/-- The callback that a setter is given, if it is the setter of this kind. -/
def gives : Kind → Setter κ → Option (Option κ)
  | .close, .closeCallback cb => some cb
  | .error, .errorCallback cb => some cb
  | .read, .readCallback cb => some cb
  | .write, .writeCallback cb => some cb
  | _, _ => none

/-- The callback most recently given by one of the setters that `sel` selects. -/
def latest (sel : Setter κ → Option (Option κ)) (sets : List (Setter κ)) : Option κ :=
  sets.foldl (fun cb m => (sel m).getD cb) none

/-- The callback most recently set for the kind. -/
def lastSet (k : Kind) (sets : List (Setter κ)) : Option κ := latest (gives k) sets

/-- The callback most recently given to `setWriteCallback` or `setErrorCallback`. -/
def lastWriteOrError (sets : List (Setter κ)) : Option κ :=
  latest (fun m => (gives .write m).or (gives .error m)) sets

/-- The channel after the setters, when these events are reported. -/
def reported (fd : ℤ) (junk : Channel κ) (sets : List (Setter κ)) (mask : BitVec 32) : Channel κ :=
  (sets.foldl (fun c m => m.apply c) (Channel.construct fd junk)).setRevent mask

/-- **Each kind of event reaches its own callback**: of each kind, the callback most recently set is
invoked once if the events of the kind were reported, and none otherwise. -/
def Reaches (fd : ℤ) (junk : Channel κ) (sets : List (Setter κ)) (mask : BitVec 32) : Prop :=
  ∀ k, ((invoked (reported fd junk sets mask)).filter fun i => i.1 = k) =
    if k.due mask then ((lastSet k sets).map fun cb => (k, cb)).toList else []

/-- **A setter leaves the other kinds alone.** -/
def Apart (c : Channel κ) (m : Setter κ) : Prop :=
  ∀ k, gives k m = none → (m.apply c).callback k = c.callback k

/-! ### What `handleEvent` invokes -/

/-- The kinds in the entries of a batch. -/
def kindOf : Entry → Option Kind
  | .callback _ k => some k
  | _ => none

/-- **The callbacks `handleEvent` invokes**, whatever they do, as long as they leave the channel as it
is. -/
theorem handleEvent_invokes (refuse : CtlOp → Bool) {acts : Kind → List (Act κ)} {c : Addr}
    (hacts : ∀ k s, (performAll refuse (acts k) s).1.memory c = s.memory c) :
    ∀ (ks : List Kind) (s : State κ), (handleEvent refuse acts c ks s).2.filterMap kindOf =
      ks.filter (s.memory c).serves
  | [], _ => rfl
  | k :: ks, s => by
    have hnone : (performAll refuse (acts k) s).2.filterMap kindOf = [] := by
      refine List.filterMap_eq_nil_iff.mpr fun e he => ?_
      obtain ⟨c', rfl⟩ := performAll_entries refuse (acts k) s e he
      rfl
    unfold handleEvent
    by_cases hk : (s.memory c).serves k = true
    · rw [if_pos hk, List.filter_cons_of_pos hk]
      have hrest := handleEvent_invokes refuse hacts ks (performAll refuse (acts k) s).1
      rw [hacts] at hrest
      simp only [List.filterMap_cons, kindOf, List.filterMap_append, hnone, hrest, List.nil_append]
    · rw [if_neg hk, List.filter_cons_of_neg hk]
      exact handleEvent_invokes refuse hacts ks s

/-- The kinds are those that are due and have a callback. -/
theorem map_fst_invoked (c : Channel κ) : (invoked c).map Prod.fst = kinds.filter c.serves := by
  unfold invoked
  rw [List.map_filterMap]
  induction kinds with
  | nil => rfl
  | cons k ks ih =>
    rw [List.filterMap_cons, List.filter_cons, ih]
    unfold Channel.serves
    cases k.due c.revent <;> cases c.callback k <;> rfl

/-- `handleEvent` invokes `invoked`. -/
theorem handleEvent_invoked (refuse : CtlOp → Bool) {acts : Kind → List (Act κ)} {c : Addr}
    (hacts : ∀ k s, (performAll refuse (acts k) s).1.memory c = s.memory c) (s : State κ) :
    (handleEvent refuse acts c kinds s).2.filterMap kindOf = (invoked (s.memory c)).map Prod.fst :=
  (handleEvent_invokes refuse hacts kinds s).trans (map_fst_invoked (s.memory c)).symm

/-- Of the entries made for distinct keys, those of one key. -/
theorem filter_filterMap_key {α β : Type*} [DecidableEq α] (f : α → Option β) (k : α) :
    ∀ {l : List α}, l.Nodup →
      ((l.filterMap fun a => (f a).map fun b => (a, b)).filter fun p => p.1 = k) =
        if k ∈ l then ((f k).map fun b => (k, b)).toList else []
  | [], _ => rfl
  | a :: l, hnd => by
    obtain ⟨ha, hl⟩ := List.nodup_cons.mp hnd
    have ih := filter_filterMap_key f k hl
    rw [List.filterMap_cons]
    by_cases hk : k = a
    · rw [hk, if_neg ha] at ih
      rw [hk, if_pos List.mem_cons_self]
      cases f a with
      | none => exact ih
      | some b => simpa using ih
    · have hmem : k ∈ a :: l ↔ k ∈ l := by simp [hk]
      rw [if_congr hmem rfl rfl, ← ih]
      cases f a with
      | none => rfl
      | some b => simp [Ne.symm hk]

theorem invoked_of_kind (c : Channel κ) (k : Kind) :
    ((invoked c).filter fun i => i.1 = k) =
      if k.due c.revent then ((c.callback k).map fun cb => (k, cb)).toList else [] := by
  have hk : k ∈ kinds := by cases k <;> decide
  unfold invoked
  rw [filter_filterMap_key _ k (by decide), if_pos hk]
  cases k.due c.revent <;> rfl

/-! ### What the setters leave -/

/-- The setters one after the other, for a slot of the channel that they assign as `sel` says. -/
theorem foldl_slot {g : Channel κ → Option κ} {sel : Setter κ → Option (Option κ)}
    (h : ∀ c m, g (m.apply c) = (sel m).getD (g c)) :
    ∀ (sets : List (Setter κ)) (c : Channel κ), g (sets.foldl (fun c m => m.apply c) c) =
      sets.foldl (fun cb m => (sel m).getD cb) (g c)
  | [], _ => rfl
  | m :: sets, c => by
    rw [List.foldl_cons, List.foldl_cons, foldl_slot h sets, h]

theorem errorcb_foldl : ∀ (sets : List (Setter κ)) (c : Channel κ),
    (sets.foldl (fun c m => m.apply c) c).errorcb = c.errorcb
  | [], _ => rfl
  | m :: sets, c => by
    rw [List.foldl_cons, errorcb_foldl sets]
    cases m <;> rfl

variable (fd : ℤ) (junk : Channel κ) (sets : List (Setter κ)) (mask : BitVec 32)

/-- **The four slots**: no setter assigns the error callback, and two assign the write callback. -/
theorem callback_reported (k : Kind) : (reported fd junk sets mask).callback k =
    match k with
    | .close => lastSet .close sets
    | .error => none
    | .read => lastSet .read sets
    | .write => lastWriteOrError sets := by
  cases k with
  | close => exact foldl_slot (g := Channel.closecb) (fun _ m => by cases m <;> rfl) sets _
  | error => exact errorcb_foldl sets _
  | read => exact foldl_slot (g := Channel.readcb) (fun _ m => by cases m <;> rfl) sets _
  | write => exact foldl_slot (g := Channel.writecb) (fun _ m => by cases m <;> rfl) sets _

/-! ### The exact conditions -/

/-- One kind: its callback is the one most recently set, unless its events were not reported. -/
theorem reaches_kind_iff (k : Kind) :
    (((invoked (reported fd junk sets mask)).filter fun i => i.1 = k) =
      if k.due mask then ((lastSet k sets).map fun cb => (k, cb)).toList else []) ↔
      (k.due mask = true → (reported fd junk sets mask).callback k = lastSet k sets) := by
  have hrevent : (reported fd junk sets mask).revent = mask := rfl
  rw [invoked_of_kind, hrevent]
  cases k.due mask with
  | false => simp
  | true =>
    cases (reported fd junk sets mask).callback k <;> cases lastSet k sets <;> simp

theorem reaches_iff_callbacks : Reaches fd junk sets mask ↔
    (Kind.error.due mask = true → lastSet .error sets = none) ∧
      (Kind.write.due mask = true → lastWriteOrError sets = lastSet .write sets) := by
  have hall : Reaches fd junk sets mask ↔ ∀ k : Kind, k.due mask = true →
      (reported fd junk sets mask).callback k = lastSet k sets :=
    forall_congr' fun k => reaches_kind_iff fd junk sets mask k
  simp only [hall, callback_reported]
  constructor
  · intro h
    exact ⟨fun he => (h .error he).symm, h .write⟩
  · rintro ⟨he, hw⟩ k hk
    cases k with
    | close => rfl
    | error => exact (he hk).symm
    | read => rfl
    | write => exact hw hk

/-- The setter of the error callback changes the write callback, and nothing else is amiss. -/
theorem apart_iff_kept (c : Channel κ) (m : Setter κ) :
    Apart c m ↔ ∀ cb, m = .errorCallback cb → c.writecb = cb := by
  unfold Apart
  constructor
  · rintro h cb rfl
    exact (h .write rfl).symm
  · intro h k hk
    cases m with
    | errorCallback cb =>
      cases k with
      | write => exact (h cb rfl).symm
      | _ => rfl
    | closeCallback | readCallback | writeCallback => cases k <;> first | rfl | cases hk
    | tie => cases k <;> rfl

/-- **When each kind of event reaches its own callback**: an error's exactly if none is in force for
it, since none is ever invoked; a write's exactly if the last call of `setWriteCallback` and
`setErrorCallback` gave what the last call of `setWriteCallback` gave; and a setter leaves the
other kinds alone unless it is `setErrorCallback` with a callback other than the write callback. -/
theorem reaches_iff : (Reaches fd junk sets mask ↔
    (Kind.error.due mask = true → lastSet .error sets = none) ∧
      (Kind.write.due mask = true → lastWriteOrError sets = lastSet .write sets)) ∧
    ∀ (c : Channel κ) (m : Setter κ), Apart c m ↔ ∀ cb, m = .errorCallback cb → c.writecb = cb :=
  ⟨reaches_iff_callbacks fd junk sets mask, apart_iff_kept⟩

/-- An error callback set behind a write callback is invoked for the writes, and nothing for errors. -/
theorem error_reaches_write :
    invoked (reported 3 (zeros 0) [.writeCallback (some 1), .errorCallback (some 2)]
        (EPOLLERR ||| EPOLLOUT)) = [(.write, 2)] ∧
      ¬ Reaches 3 (zeros 0) [.writeCallback (some 1), .errorCallback (some 2)]
        (EPOLLERR ||| EPOLLOUT) ∧
      ¬ Apart (Channel.construct 3 (zeros 0)) (.errorCallback (some 2)) := by
  refine ⟨by decide, fun h => ?_, fun h => ?_⟩
  · exact absurd (h .error) (by decide)
  · exact absurd (h .write rfl) (by decide)

end Chaining.Poll.Callbacks
