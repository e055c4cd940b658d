import Chaining.Base.Runs
import Chaining.Poll.Epoller

/-! # Failed registrations

`update` and `removeChannel` change the poller's map before they call `epoll_ctl`, and a failure of
that call is only logged. So a descriptor whose `EPOLL_CTL_ADD` failed stays in the map without being
in the interest list, and every later `update` tries `EPOLL_CTL_MOD`; one whose `EPOLL_CTL_DEL` failed
stays in the interest list, where `fillActivatedChannels`'s `assert` will not find it in the map. A
failed `EPOLL_CTL_MOD` does no harm. `restores_iff_obeyed` says that these two are all, for any run
of the two calls. -/

namespace Chaining.Poll.Failures

open Chaining.Base.Runs Chaining.Outcome Chaining.Poll.Events Chaining.Poll.Epoller

variable {κ : Type*}

/-- A call on the poller, with the outcome of its `epoll_ctl`, or a change of a channel in between. -/
inductive Call (κ : Type*) where
  | update (channel : Addr) (refused : Bool)
  | removeChannel (channel : Addr) (refused : Bool)
  | change (channel : Addr) (value : Channel κ)

def exec (s : State κ) : Call κ → Except Fault (State κ × Unit)
  | .update c refused => .ok (s.update (fun _ => refused) c, ())
  | .removeChannel c refused => do return (← s.removeChannel (fun _ => refused) c, ())
  | .change c value => .ok (s.modify c fun _ => value, ())

/-- The map and the interest list hold the same descriptors. -/
def Synced (s : State κ) : Prop := ∀ fd, s.channels fd = none ↔ s.interest fd = none

/-- The operation that `update` chooses. -/
def chosen (s : State κ) (c : Addr) : CtlOp :=
  match s.channels (s.memory c).fd with
  | none => .add
  | some _ => .mod

/-- **What a call owes**, if it returns: the map and the list hold the same descriptors again; an
`update` has tried `EPOLL_CTL_ADD` if the descriptor was not in the interest list and
`EPOLL_CTL_MOD` if it was; and a failed `EPOLL_CTL_ADD` leaves it out of the map. -/
structure Restores (s : State κ) (call : Call κ) : Prop where
  synced : ∀ s' o, exec s call = .ok (s', o) → Synced s'
  tried : ∀ c refused, call = .update c refused →
    (chosen s c = .add ↔ s.interest (s.memory c).fd = none)
  failed : ∀ c s' o, call = .update c true → chosen s c = .add → exec s call = .ok (s', o) →
    s'.channels (s.memory c).fd = none

/-- **The condition**: `epoll_ctl` fails neither for an `update` of a descriptor that is not in the
map nor for the removal of one that is. -/
def Obeyed (s : State κ) : Call κ → Prop
  | .update c refused => refused = true → s.channels (s.memory c).fd ≠ none
  | .removeChannel c refused => refused = true → s.channels (s.memory c).fd = none
  | .change .. => True

variable {s s' : State κ} {c : Addr}

theorem chosen_eq_add_iff (s : State κ) (c : Addr) :
    chosen s c = .add ↔ s.channels (s.memory c).fd = none := by
  unfold chosen
  split <;> simp [*]

/-- Both tables are changed at one descriptor. -/
theorem Synced.set (h : Synced s) (fd : ℤ) {x : Option Addr} {y : Option (Addr × BitVec 32)}
    (hxy : x = none ↔ y = none) :
    Synced { s with
      channels := Function.update s.channels fd x, interest := Function.update s.interest fd y } := by
  intro fd'
  by_cases hfd : fd' = fd
  · rw [hfd]
    simpa using hxy
  · simpa [hfd] using h fd'

/-! ### The two calls -/

theorem update_of_absent (refuse : CtlOp → Bool) (hc : s.channels (s.memory c).fd = none) :
    s.update refuse c =
      { s with channels := Function.update s.channels (s.memory c).fd (some c) }.ctl refuse .add
        (s.memory c).fd (some (c, (s.memory c).event)) := by
  unfold State.update
  simp only [hc]
  rfl

theorem update_of_present (refuse : CtlOp → Bool) {a : Addr}
    (hc : s.channels (s.memory c).fd = some a) :
    s.update refuse c =
      s.ctl refuse .mod (s.memory c).fd (some (c, (s.memory c).event)) := by
  unfold State.update
  simp only [hc]
  rfl

/-- The kernel has the descriptors of the map. -/
theorem Synced.interest (h : Synced s) {fd : ℤ} (hc : s.channels fd ≠ none) :
    ∃ e, s.interest fd = some e :=
  Option.ne_none_iff_exists'.mp fun hi => hc ((h fd).mpr hi)

/-- An `update` whose `epoll_ctl` succeeds. -/
theorem synced_update (h : Synced s) (c : Addr) : Synced (s.update (fun _ => false) c) := by
  cases hch : s.channels (s.memory c).fd with
  | none =>
    have hint := (h _).mp hch
    simp only [update_of_absent _ hch, State.ctl, epollCtl, hint, Bool.false_eq_true, if_false]
    exact h.set _ (by simp)
  | some a =>
    obtain ⟨e, hint⟩ := h.interest (show s.channels (s.memory c).fd ≠ none by simp [hch])
    have hset := h.set (s.memory c).fd (x := some a) (y := some (c, (s.memory c).event)) (by simp)
    rw [← hch, Function.update_eq_self] at hset
    simpa only [update_of_present _ hch, State.ctl, epollCtl, hint, Bool.false_eq_true, if_false]
      using hset

/-- An `update` whose `epoll_ctl` fails is harmless exactly if it changes an entry. -/
theorem synced_update_refused_iff (h : Synced s) (c : Addr) :
    Synced (s.update (fun _ => true) c) ↔ s.channels (s.memory c).fd ≠ none := by
  cases hch : s.channels (s.memory c).fd with
  | none =>
    refine iff_of_false (fun hs => ?_) (by simp)
    have hat := hs (s.memory c).fd
    simp [update_of_absent _ hch, State.ctl, (h _).mp hch] at hat
  | some a =>
    refine iff_of_true ?_ (by simp)
    rw [update_of_present _ hch]
    exact h

/-- The removal of a descriptor that is in the map goes through both `assert`s. -/
theorem removeChannel_eq (refuse : CtlOp → Bool) (hc : s.channels (s.memory c).fd ≠ none) :
    s.removeChannel refuse c = .ok ({ s with
      channels := Function.update s.channels (s.memory c).fd none }.removeFromEpoll refuse
        (s.memory c).fd) := by
  unfold State.removeChannel
  rw [if_neg hc, Option.isSome_iff_ne_none.mpr hc]
  rfl

theorem synced_removed (h : Synced s) {fd : ℤ} (hc : s.channels fd ≠ none) :
    Synced ({ s with channels := Function.update s.channels fd none }.removeFromEpoll
      (fun _ => false) fd) := by
  obtain ⟨e, hint⟩ := h.interest hc
  simp only [State.removeFromEpoll, State.ctl, epollCtl, hint, Bool.false_eq_true, if_false]
  exact h.set fd (by simp)

/-- A removal whose `epoll_ctl` fails leaves the descriptor in the interest list alone. -/
theorem not_synced_removed (h : Synced s) {fd : ℤ} (hc : s.channels fd ≠ none) :
    ¬ Synced ({ s with channels := Function.update s.channels fd none }.removeFromEpoll
      (fun _ => true) fd) := by
  intro hs
  have hat := hs fd
  simp only [State.removeFromEpoll, State.ctl, if_true, Function.update_self, true_iff] at hat
  exact hc ((h fd).mpr hat)

/-! ### Runs -/

/-- **One call** leaves the tables with the same descriptors exactly if it is obeyed. -/
theorem synced_exec_iff (h : Synced s) (call : Call κ) :
    (∀ s' o, exec s call = .ok (s', o) → Synced s') ↔ Obeyed s call := by
  cases call with
  | update c refused =>
    have hall : (∀ s' o, exec s (.update c refused) = .ok (s', o) → Synced s') ↔
        Synced (s.update (fun _ => refused) c) :=
      ⟨fun hs => hs _ _ rfl, fun hs s' o he => by cases he; exact hs⟩
    rw [hall]
    cases refused with
    | false => exact iff_of_true (synced_update h c) fun hr => by cases hr
    | true => exact (synced_update_refused_iff h c).trans (by simp [Obeyed])
  | removeChannel c refused =>
    by_cases hc : s.channels (s.memory c).fd = none
    · refine iff_of_true (fun s' o he => ?_) fun _ => hc
      simp [exec, State.removeChannel, hc, error_bind] at he
    · have hex : exec s (.removeChannel c refused) = .ok ({ s with
          channels := Function.update s.channels (s.memory c).fd none }.removeFromEpoll
            (fun _ => refused) (s.memory c).fd, ()) := by
        rw [exec, removeChannel_eq _ hc]
        rfl
      rw [hex]
      cases refused with
      | false =>
        refine iff_of_true (fun s' o he => ?_) fun hr => by cases hr
        cases he
        exact synced_removed h hc
      | true =>
        exact iff_of_false (fun hs => not_synced_removed h hc (hs _ _ rfl)) fun ho => hc (ho rfl)
  | change c value =>
    refine iff_of_true (fun s' o he => ?_) trivial
    cases he
    exact h

/-- What is tried is right as long as the tables hold the same descriptors; and if they still do
after a failed `EPOLL_CTL_ADD`, the descriptor is in neither. -/
theorem restores_iff (h : Synced s) (call : Call κ) : Restores s call ↔ Obeyed s call := by
  rw [← synced_exec_iff h call]
  refine ⟨fun hr => hr.synced, fun hs => ⟨hs, ?_, ?_⟩⟩
  · intro c refused _
    rw [chosen_eq_add_iff, h]
  · rintro c s' o rfl hadd -
    have hobeyed := (synced_exec_iff h (.update c true)).mp hs
    exact absurd ((chosen_eq_add_iff s c).mp hadd) (hobeyed rfl)

/-- **The exact condition.** From any poller whose map and interest list hold the same descriptors, in
a run of updates, removals and changes of channels they hold the same descriptors after every call,
and every update tries the right operation, if and only if `epoll_ctl` fails neither for an update
that adds a descriptor nor for a removal. -/
theorem restores_iff_obeyed (h : Synced s) (calls : List (Call κ)) :
    Along exec Restores s calls ↔ Along exec Obeyed s calls :=
  along_iff (I := Synced) (A := fun _ _ => True) (fun _ call h _ => restores_iff h call)
    (fun _ call s' o h _ ho he => (synced_exec_iff h call).mpr ho s' o he) h
    (along_true s calls)

theorem synced_init (memory : Addr → Channel κ) : Synced (init memory) :=
  fun _ => iff_of_true rfl rfl

/-- A registration, a change that fails and a removal. -/
theorem restores_iff_obeyed_once :
    Along exec Restores (init (zeros : Addr → Channel ℕ))
        [.update 0 false, .update 0 true, .removeChannel 0 false] ↔
      Along exec Obeyed (init (zeros : Addr → Channel ℕ))
        [.update 0 false, .update 0 true, .removeChannel 0 false] :=
  restores_iff_obeyed (synced_init zeros) _

/-- **A failed registration is taken for one.** The first `update` of a channel fails: its descriptor
is in the map and not in the interest list. The next one, which the kernel would obey, tries
`EPOLL_CTL_MOD` and fails too. -/
theorem failed_add_stays :
    Synced (init (zeros : Addr → Channel ℕ)) ∧
      ¬ Along exec Restores (init (zeros : Addr → Channel ℕ)) [.update 0 true, .update 0 false] ∧
      ∃ s₁ s₂ : State ℕ, exec (init zeros) (.update 0 true) = .ok (s₁, ()) ∧
        s₁.channels 0 = some 0 ∧ s₁.interest 0 = none ∧
        exec s₁ (.update 0 false) = .ok (s₂, ()) ∧ s₂.interest 0 = none ∧
        s₂.logged = [(.mod, 0), (.add, 0)] := by
  refine ⟨synced_init zeros, ?_, _, _, rfl, rfl, rfl, rfl, rfl, rfl⟩
  rintro ⟨hr, -⟩
  have hsynced := hr.synced _ _ rfl 0
  exact absurd (hsynced.mpr rfl) (by decide)

end Chaining.Poll.Failures
