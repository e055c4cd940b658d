import Chaining.Outcome
import Mathlib.Logic.Function.Basic
import Mathlib.Logic.Relation

/-! # The thread of a loop

Each thread has a variable of its own, `local_thread_id_`, which is empty until the thread constructs a
loop and holds the thread's id from then on; it is never reset, so that a thread can construct one loop
in its life, and a second construction ends the program. A loop is on its thread when its own copy of
the id is what the variable of the calling thread holds.

Ids are taken up again by threads that start after others have ended. `isInLoopThread_iff` says what
the comparison is worth: as long as the thread that constructed a loop runs, it is true on that thread
and on no other; and afterwards it may be true on another one, that has its id. -/

namespace Chaining.Loop.Threads

open Relation (ReflTransGen)

/-- `std::thread::id`; `none` is the default one, which is of no thread. -/
abbrev ThreadId := Option ℕ

/-- A loop, as far as threads are concerned; `creator` is the thread that constructed it. -/
structure EventLoop (θ : Type*) where
  creator : θ
  threadId : ThreadId

/-- The threads there have been, the ids and variables of each, and the loops that were constructed. -/
structure State (θ : Type*) where
  started : θ → Bool
  running : θ → Bool
  id : θ → ThreadId
  localThreadId : θ → ThreadId
  loops : List (EventLoop θ)

variable {θ : Type*} [DecidableEq θ]

/-- `std::this_thread::get_id()`. -/
def getId (s : State θ) (t : θ) : ThreadId := s.id t

/-- `isInLoopThread`, called on a thread. -/
def isInLoopThread (s : State θ) (loop : EventLoop θ) (t : θ) : Bool :=
  loop.threadId = s.localThreadId t

/-- How the constructor ends. -/
inductive Constructed (θ : Type*) where
  | returned (s : State θ)
  /-- `std::terminate` -/
  | terminated
  /-- an `assertInLoopThread` on the way -/
  | assertFailed

/-- The constructor, on a thread. At its end the wake-up's channel registers itself with the loop, which
asserts that it is on its thread. The system calls on the way, `epoll_create1` and `eventfd`, are taken to
succeed. -/
def construct (s : State θ) (t : θ) : Constructed θ :=
  let loop : EventLoop θ := ⟨t, getId s t⟩
  if s.localThreadId t ≠ none then .terminated
  else
    let s := { s with localThreadId := Function.update s.localThreadId t loop.threadId }
    if isInLoopThread s loop t then .returned { s with loops := loop :: s.loops } else .assertFailed

/-- A thread starts, with an id that no running thread has; or it ends; or it constructs a loop. -/
inductive Step : State θ → State θ → Prop
  | start (s : State θ) (t : θ) (n : ℕ) (ht : s.started t = false)
      (hfree : ∀ u, s.running u = true → s.id u ≠ some n) :
      Step s { s with
        started := Function.update s.started t true
        running := Function.update s.running t true
        id := Function.update s.id t (some n)
        localThreadId := Function.update s.localThreadId t none }
  | finish (s : State θ) (t : θ) :
      Step s { s with running := Function.update s.running t false }
  | construct (s s' : State θ) (t : θ) (ht : s.running t = true) (he : construct s t = .returned s') :
      Step s s'

/-- No thread has started. -/
def init : State θ where
  started _ := false
  running _ := false
  id _ := none
  localThreadId _ := none
  loops := []

def Reachable (s : State θ) : Prop := ReflTransGen Step init s

/-- **The invariant.** -/
structure Inv (s : State θ) : Prop where
  started : ∀ t, s.running t = true → s.started t = true
  named : ∀ t, s.started t = true → s.id t ≠ none
  distinct : ∀ t u, s.running t = true → s.running u = true → s.id t = s.id u → t = u
  fresh : ∀ t, s.started t = false → s.localThreadId t = none
  constructed : ∀ t, s.localThreadId t ≠ none ↔ ∃ loop ∈ s.loops, loop.creator = t
  own : ∀ t, s.localThreadId t ≠ none → s.localThreadId t = s.id t
  ids : ∀ loop ∈ s.loops, loop.threadId = s.id loop.creator ∧ s.started loop.creator = true
  once : (s.loops.map EventLoop.creator).Nodup

variable {s s' : State θ} {t : θ}

/-- **What the constructor does**: it returns on a thread that has not constructed a loop, and ends the
program on any other; the assertion on its way holds. -/
theorem construct_eq (s : State θ) (t : θ) :
    construct s t = if s.localThreadId t = none then
      .returned { s with
        localThreadId := Function.update s.localThreadId t (s.id t)
        loops := ⟨t, s.id t⟩ :: s.loops }
      else .terminated := by
  unfold construct isInLoopThread getId
  simp only [ne_eq, ite_not, Function.update_self, decide_true, if_true]

omit [DecidableEq θ] in
theorem inv_init : Inv (init : State θ) where
  started _ h := by cases h
  named _ h := by cases h
  distinct _ _ h := by cases h
  fresh _ _ := rfl
  constructed _ := by simp [init]
  own _ h := absurd rfl h
  ids _ h := absurd h List.not_mem_nil
  once := List.nodup_nil

omit [DecidableEq θ] in
/-- A loop of a thread that starts now cannot have been constructed. -/
theorem Inv.creator_ne (h : Inv s) (ht : s.started t = false) :
    ∀ loop ∈ s.loops, loop.creator ≠ t := by
  rintro loop hloop rfl
  have hstarted := (h.ids loop hloop).2
  rw [ht] at hstarted
  cases hstarted

theorem inv_start (h : Inv s) {n : ℕ} (ht : s.started t = false)
    (hfree : ∀ u, s.running u = true → s.id u ≠ some n) :
    Inv { s with
      started := Function.update s.started t true
      running := Function.update s.running t true
      id := Function.update s.id t (some n)
      localThreadId := Function.update s.localThreadId t none } := by
  have hnever := h.creator_ne ht
  have hlocal : Function.update s.localThreadId t none = s.localThreadId := by
    rw [← h.fresh t ht, Function.update_eq_self]
  have hother : ∀ u, s.localThreadId u ≠ none → u ≠ t := fun u hu => by
    rintro rfl
    exact hu (h.fresh u ht)
  rw [hlocal]
  constructor
  case started =>
    intro u hu
    dsimp only at hu ⊢
    by_cases hut : u = t
    · rw [hut, Function.update_self]
    · rw [Function.update_of_ne hut] at hu ⊢
      exact h.started u hu
  case named =>
    intro u hu
    dsimp only at hu ⊢
    by_cases hut : u = t
    · rw [hut, Function.update_self]
      simp
    · rw [Function.update_of_ne hut] at hu ⊢
      exact h.named u hu
  case distinct =>
    intro u v hu hv heq
    dsimp only at hu hv heq
    by_cases hut : u = t <;> by_cases hvt : v = t
    · rw [hut, hvt]
    · simp only [hut, Function.update_self, Function.update_of_ne hvt] at hv heq
      exact absurd heq.symm (hfree v hv)
    · simp only [hvt, Function.update_self, Function.update_of_ne hut] at hu heq
      exact absurd heq (hfree u hu)
    · simp only [Function.update_of_ne hut, Function.update_of_ne hvt] at hu hv heq
      exact h.distinct u v hu hv heq
  case fresh =>
    intro u hu
    dsimp only at hu
    by_cases hut : u = t
    · rw [hut, Function.update_self] at hu
      cases hu
    · rw [Function.update_of_ne hut] at hu
      exact h.fresh u hu
  case constructed => exact h.constructed
  case own =>
    intro u hu
    dsimp only at hu ⊢
    rw [Function.update_of_ne (hother u hu)]
    exact h.own u hu
  case ids =>
    intro loop hloop
    have hne := hnever loop hloop
    dsimp only
    rw [Function.update_of_ne hne, Function.update_of_ne hne]
    exact h.ids loop hloop
  case once => exact h.once

theorem inv_finish (h : Inv s) (t : θ) :
    Inv { s with running := Function.update s.running t false } := by
  have hrun : ∀ u, Function.update s.running t false u = true → s.running u = true := by
    intro u hu
    by_cases hut : u = t
    · rw [hut, Function.update_self] at hu
      cases hu
    · rwa [Function.update_of_ne hut] at hu
  exact { h with
    started := fun u hu => h.started u (hrun u hu)
    distinct := fun u v hu hv => h.distinct u v (hrun u hu) (hrun v hv) }

theorem inv_construct (h : Inv s) (ht : s.running t = true) (hnone : s.localThreadId t = none) :
    Inv { s with
      localThreadId := Function.update s.localThreadId t (s.id t)
      loops := ⟨t, s.id t⟩ :: s.loops } := by
  have hid := h.named t (h.started t ht)
  constructor
  case started => exact h.started
  case named => exact h.named
  case distinct => exact h.distinct
  case fresh =>
    intro u hu
    have hut : u ≠ t := by
      rintro rfl
      rw [h.started u ht] at hu
      cases hu
    dsimp only
    rw [Function.update_of_ne hut]
    exact h.fresh u hu
  case constructed =>
    intro u
    simp only [List.mem_cons, exists_eq_or_imp]
    by_cases hut : u = t
    · rw [hut, Function.update_self]
      exact iff_of_true hid (Or.inl rfl)
    · rw [Function.update_of_ne hut, h.constructed u]
      exact (or_iff_right fun heq => hut heq.symm).symm
  case own =>
    intro u hu
    dsimp only at hu ⊢
    by_cases hut : u = t
    · rw [hut, Function.update_self]
    · rw [Function.update_of_ne hut] at hu ⊢
      exact h.own u hu
  case ids =>
    intro loop hloop
    rcases List.mem_cons.mp hloop with rfl | hloop
    · exact ⟨rfl, h.started t ht⟩
    · exact h.ids loop hloop
  case once =>
    rw [List.map_cons, List.nodup_cons]
    refine ⟨fun hmem => ?_, h.once⟩
    obtain ⟨loop, hloop, heq⟩ := List.mem_map.mp hmem
    exact (h.constructed t).mpr ⟨loop, hloop, heq⟩ hnone

theorem Step.inv (hs : Step s s') (h : Inv s) : Inv s' := by
  cases hs with
  | start t n ht hfree => exact inv_start h ht hfree
  | finish t => exact inv_finish h t
  | construct _ t ht he =>
    rw [construct_eq] at he
    split_ifs at he with hnone
    cases he
    exact inv_construct h ht hnone

theorem Reachable.inv (h : Reachable s) : Inv s := by
  induction h with
  | refl => exact inv_init
  | tail _ hstep ih => exact Step.inv hstep ih

omit [DecidableEq θ] in
/-- The comparison, on any thread: the thread has a loop of its own, and its id is that of the loop's
thread. -/
theorem isInLoopThread_eq (h : Inv s) {loop : EventLoop θ} (hloop : loop ∈ s.loops) (t : θ) :
    isInLoopThread s loop t = true ↔
      (∃ own ∈ s.loops, own.creator = t) ∧ s.id t = s.id loop.creator := by
  obtain ⟨hid, hstarted⟩ := h.ids loop hloop
  have hnamed := h.named _ hstarted
  unfold isInLoopThread
  rw [decide_eq_true_iff, ← h.constructed, hid]
  constructor
  · intro heq
    have hne : s.localThreadId t ≠ none := heq ▸ hnamed
    exact ⟨hne, (h.own t hne).symm.trans heq.symm⟩
  · rintro ⟨hne, heq⟩
    rw [h.own t hne, heq]

/-- **What the comparison is worth.** In every reachable state: a thread constructs at most one loop,
and its second construction ends the program; and as long as the thread that constructed a loop runs,
`isInLoopThread` is true on it and on no other running thread. -/
theorem isInLoopThread_iff (h : Reachable s) :
    (∀ t, s.running t = true → ((∃ loop ∈ s.loops, loop.creator = t) ↔ construct s t = .terminated) ∧
      construct s t ≠ .assertFailed) ∧
    (s.loops.map EventLoop.creator).Nodup ∧
    ∀ loop ∈ s.loops, s.running loop.creator = true → ∀ t, s.running t = true →
      (isInLoopThread s loop t = true ↔ t = loop.creator) := by
  have hI := h.inv
  refine ⟨fun t _ => ?_, hI.once, fun loop hloop hrun t ht => ?_⟩
  · rw [construct_eq, ← hI.constructed]
    split_ifs with hnone
    · exact ⟨iff_of_false (fun hne => hne hnone) (by simp), by simp⟩
    · exact ⟨iff_of_true hnone rfl, by simp⟩
  · rw [isInLoopThread_eq hI hloop]
    constructor
    · exact fun ⟨_, heq⟩ => hI.distinct t loop.creator ht hrun heq
    · rintro rfl
      exact ⟨⟨loop, hloop, rfl⟩, rfl⟩

/-- A thread constructs a loop and ends, and another one starts with its id and constructs a loop of its
own: the first loop takes the second thread for its own. -/
theorem isInLoopThread_iff_mistaken :
    ∃ s : State Bool, Reachable s ∧ isInLoopThread s ⟨false, some 7⟩ true = true ∧
      (∀ t, s.running t = true →
        ((∃ loop ∈ s.loops, loop.creator = t) ↔ construct s t = .terminated) ∧
          construct s t ≠ .assertFailed) ∧
      (s.loops.map EventLoop.creator).Nodup ∧
      ∀ loop ∈ s.loops, s.running loop.creator = true → ∀ t, s.running t = true →
        (isInLoopThread s loop t = true ↔ t = loop.creator) := by
  have h : Reachable (init : State Bool) := .refl
  have h := h.tail (.start _ false 7 rfl fun u hu => by cases hu)
  have h := h.tail (.construct _ _ false rfl rfl)
  have h := h.tail (.finish _ false)
  have h := h.tail (.start _ true 7 rfl fun u hu => by cases u <;> cases hu)
  have h := h.tail (.construct _ _ true rfl rfl)
  exact ⟨_, h, rfl, isInLoopThread_iff h⟩

end Chaining.Loop.Threads
