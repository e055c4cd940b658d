import Chaining.Base.Runs
import Chaining.Loop.Tasks
import Chaining.Outcome

/-! # The queue of tasks against a list

Each member of `BlockQueue` holds the mutex for its whole body, so whatever the threads are and however
they are scheduled, a run is a list of calls, each with the thread that makes it. `FifoStep` is what the
calls answer on a plain list. `BlockQueue` answers the same, except for one slip: the type of `size`
is `bool`, so that it answers 1 for any number of tasks but none. `fifo_iff` gives the exact
condition. -/

namespace Chaining.Loop.Fifo

open Chaining.Base.Runs Chaining.Outcome Chaining.Loop.Tasks

variable {θ τ : Type*}

inductive Op (τ : Type*) where
  | push (task : τ)
  | tryPopInto (task : τ)
  | tryPop
  | empty
  | size

/-- What a call answers; `took` is whether `try_pop` succeeded and the task of the caller's then. -/
inductive Answer (τ : Type*) where
  | none
  | took (success : Bool) (task : τ)
  | popped (task : Option τ)
  | isEmpty (b : Bool)
  | count (n : ℕ)

/-- A call by a thread. -/
abbrev Call (θ τ : Type*) := θ × Op τ

/-- A `bool` that is taken for a number is 0 or 1. -/
def exec (q : BlockQueue τ) : Call θ τ → Except Fault (BlockQueue τ × Answer τ)
  | (_, .push task) => .ok (q.push task, .none)
  | (_, .tryPopInto task) =>
    let (q, success, task) := q.tryPopInto task
    .ok (q, .took success task)
  | (_, .tryPop) =>
    let (q, task) := q.tryPop
    .ok (q, .popped task)
  | (_, .empty) => .ok (q, .isEmpty q.empty)
  | (_, .size) => .ok (q, .count q.size.toNat)

/-- **The list queue.** One call when it holds these tasks, the oldest first. -/
inductive FifoStep : List τ → Call θ τ → Answer τ → List τ → Prop
  | push (l : List τ) (i : θ) (task : τ) : FifoStep l (i, .push task) .none (l ++ [task])
  | tookNone (i : θ) (task : τ) : FifoStep [] (i, .tryPopInto task) (.took false task) []
  | took (front : τ) (l : List τ) (i : θ) (task : τ) :
      FifoStep (front :: l) (i, .tryPopInto task) (.took true front) l
  | poppedNone (i : θ) : FifoStep [] (i, .tryPop) (.popped .none) []
  | popped (front : τ) (l : List τ) (i : θ) :
      FifoStep (front :: l) (i, .tryPop) (.popped (some front)) l
  | empty (l : List τ) (i : θ) : FifoStep l (i, .empty) (.isEmpty l.isEmpty) l
  | size (l : List τ) (i : θ) : FifoStep l (i, .size) (.count l.length) l

/-- The list queue has one answer to a call. -/
theorem FifoStep.unique {l l₁ l₂ : List τ} {c : Call θ τ} {a₁ a₂ : Answer τ}
    (h₁ : FifoStep l c a₁ l₁) (h₂ : FifoStep l c a₂ l₂) : a₁ = a₂ ∧ l₁ = l₂ := by
  cases h₁ <;> cases h₂ <;> exact ⟨rfl, rfl⟩

/-! ### What the list queue does over a run -/

/-- The tasks pushed, in order. -/
def pushed (calls : List (Call θ τ)) : List τ :=
  calls.filterMap fun
    | (_, .push task) => some task
    | _ => none

/-- The tasks popped, in order. -/
def taken (answers : List (Answer τ)) : List τ :=
  answers.filterMap fun
    | .took true task => some task
    | .popped task => task
    | _ => none

/-- **First in, first out**: what was pushed is what was popped, in the same order, and then what is
left. -/
theorem pushed_eq {l l' : List τ} {calls : List (Call θ τ)} {answers : List (Answer τ)}
    (h : SpecRun FifoStep l calls answers l') : l ++ pushed calls = taken answers ++ l' := by
  induction h with
  | nil l => exact List.append_nil l
  | cons hstep _ ih =>
    cases hstep with
    | push l i task =>
      rw [List.append_assoc] at ih
      exact ih
    | tookNone i task => exact ih
    | took front l i task => exact congrArg (front :: ·) ih
    | poppedNone i => exact ih
    | popped front l i => exact congrArg (front :: ·) ih
    | empty l i => exact ih
    | size l i => exact ih

/-! ### The two queues side by side -/

/-- **The condition**: `size` is called when there is at most one task. -/
def Countable (q : BlockQueue τ) (c : Call θ τ) : Prop := c.2 = .size → q.tasks.length ≤ 1

theorem size_toNat_iff (q : BlockQueue τ) : q.size.toNat = q.tasks.length ↔ q.tasks.length ≤ 1 := by
  unfold BlockQueue.size
  by_cases hzero : q.tasks.length = 0
  · simp [hzero]
  · simp [hzero]
    omega

/-- A call answers as on the list, if it is countable. -/
theorem exec_fifo (q : BlockQueue τ) (c : Call θ τ) (hc : Countable q c) :
    ∃ q' a, exec q c = .ok (q', a) ∧ FifoStep q.tasks c a q'.tasks := by
  obtain ⟨i, op⟩ := c
  obtain ⟨tasks⟩ := q
  cases op with
  | push task => exact ⟨_, _, rfl, .push tasks i task⟩
  | tryPopInto task =>
    cases tasks with
    | nil => exact ⟨_, _, rfl, .tookNone i task⟩
    | cons front rest => exact ⟨_, _, rfl, .took front rest i task⟩
  | tryPop =>
    cases tasks with
    | nil => exact ⟨_, _, rfl, .poppedNone i⟩
    | cons front rest => exact ⟨_, _, rfl, .popped front rest i⟩
  | empty => exact ⟨_, _, rfl, .empty tasks i⟩
  | size =>
    have hsize := (size_toNat_iff ⟨tasks⟩).mpr (hc rfl)
    refine ⟨_, _, rfl, ?_⟩
    rw [hsize]
    exact .size tasks i

/-- A call that answers as on the list is countable, and leaves the list's tasks. -/
theorem countable_of_fifo {q q' : BlockQueue τ} {c : Call θ τ} {a : Answer τ} {l : List τ}
    (he : exec q c = .ok (q', a)) (h : FifoStep q.tasks c a l) : Countable q c ∧ q'.tasks = l := by
  have hc : Countable q c := by
    obtain ⟨i, op⟩ := c
    rintro rfl
    cases he
    have hcount := (h.unique (.size q.tasks i)).1
    exact (size_toNat_iff q).mp (Answer.count.inj hcount)
  obtain ⟨q'', a'', he', hstep⟩ := exec_fifo q c hc
  cases he.symm.trans he'
  exact ⟨hc, (hstep.unique h).2⟩

theorem exec_total (q : BlockQueue τ) (c : Call θ τ) : ∃ q' a, exec q c = .ok (q', a) := by
  obtain ⟨i, op⟩ := c
  cases op <;> exact ⟨_, _, rfl⟩

/-- **The exact condition.** Every run of calls by any threads, one after the other, from an empty
queue, returns. Its answers are those of a list queue, which gives out the tasks in the order they were
pushed in, if and only if `size` is called only when there is at most one task. -/
theorem fifo_iff (calls : List (Call θ τ)) :
    ∃ answers q, Run exec (⟨[]⟩ : BlockQueue τ) calls answers q ∧
      ((∃ l, SpecRun FifoStep [] calls answers l) ↔ Along exec Countable ⟨[]⟩ calls) ∧
      ∀ l, SpecRun FifoStep [] calls answers l → q.tasks = l ∧ pushed calls = taken answers ++ l := by
  obtain ⟨answers, q, hrun⟩ := exists_run_of_total exec_total (⟨[]⟩ : BlockQueue τ) calls
  have hforward : ∀ (s : BlockQueue τ) (t : List τ) (c : Call θ τ) (s' : BlockQueue τ) (a : Answer τ),
      s.tasks = t → Countable s c → exec s c = .ok (s', a) →
        ∃ t', FifoStep t c a t' ∧ s'.tasks = t' := by
    intro s t c s' a hR hc he
    obtain ⟨s₁, a₁, he₁, hstep⟩ := exec_fifo s c hc
    cases he.symm.trans he₁
    exact ⟨_, hR ▸ hstep, rfl⟩
  have hback : ∀ l, SpecRun FifoStep [] calls answers l →
      Along exec Countable ⟨[]⟩ calls ∧ q.tasks = l := fun l hspec =>
    hrun.along_of_specRun (R := fun q l => q.tasks = l)
      (fun s t c s' a t' hR he hstep => countable_of_fifo he (hR ▸ hstep)) rfl hspec
  refine ⟨answers, q, hrun, ⟨?_, fun hcount => ?_⟩, ?_⟩
  · rintro ⟨l, hspec⟩
    exact (hback l hspec).1
  · obtain ⟨l, hspec, -⟩ := hrun.simulates (R := fun q l => q.tasks = l) hforward rfl hcount
    exact ⟨l, hspec⟩
  · exact fun l hspec => ⟨(hback l hspec).2, pushed_eq hspec⟩

/-- **Two tasks are counted as one.** -/
theorem size_miscounts :
    Run exec (⟨[]⟩ : BlockQueue ℕ) [(0, .push 7), (1, .push 8), (0, .size)]
        [.none, .none, .count 1] ⟨[7, 8]⟩ ∧
      ¬ ∃ l, SpecRun FifoStep [] [((0 : ℕ), .push 7), (1, .push 8), (0, .size)]
        [.none, .none, .count 1] l := by
  refine ⟨.cons rfl (.cons rfl (.cons rfl (.nil _))), ?_⟩
  rintro ⟨l, h⟩
  cases h with
  | cons h1 h =>
    cases h1
    cases h with
    | cons h2 h =>
      cases h2
      cases h with
      | cons h3 h =>
        have hcount := (h3.unique (.size _ _)).1
        cases hcount

end Chaining.Loop.Fifo
