import Mathlib.Tactic.Common

/-! # The queue of pending tasks

`BlockQueue` is a deque behind a mutex; every member takes the lock for its whole body, so each call
is one atomic step on the deque. -/

namespace Chaining.Loop.Tasks

variable {τ : Type*}

structure BlockQueue (τ : Type*) where
  tasks : List τ

namespace BlockQueue

variable (q : BlockQueue τ)

def push (task : τ) : BlockQueue τ := ⟨q.tasks ++ [task]⟩

/-- `try_pop`: the oldest task, or nothing. -/
def tryPop : BlockQueue τ × Option τ :=
  match q.tasks with
  | [] => (q, none)
  | task :: rest => (⟨rest⟩, some task)

/-- The other `try_pop`, into a task of the caller's, which keeps its value if there is none. -/
def tryPopInto (task : τ) : BlockQueue τ × Bool × τ :=
  match q.tasks with
  | [] => (q, false, task)
  | front :: rest => (⟨rest⟩, true, front)

def empty : Bool := q.tasks.isEmpty

/-- `size`, whose type is `bool`. -/
def size : Bool := q.tasks.length ≠ 0

@[simp] theorem tasks_push (task : τ) : (q.push task).tasks = q.tasks ++ [task] := rfl

theorem empty_eq_true : q.empty = true ↔ q.tasks = [] := List.isEmpty_iff

/-- A successful pop removes the oldest task and nothing else. -/
theorem tryPop_some {q q' : BlockQueue τ} {task : τ} (h : q.tryPop = (q', some task)) :
    q.tasks = task :: q'.tasks := by
  unfold tryPop at h
  cases hq : q.tasks with
  | nil => rw [hq] at h; simp at h
  | cons a rest =>
    rw [hq] at h
    simp only [Prod.mk.injEq, Option.some.injEq] at h
    obtain ⟨rfl, rfl⟩ := h
    rfl

theorem tryPop_none {q q' : BlockQueue τ} (h : q.tryPop = (q', none)) : q.tasks = [] ∧ q' = q := by
  unfold tryPop at h
  cases hq : q.tasks with
  | nil => rw [hq] at h; exact ⟨rfl, (Prod.mk.inj h).1.symm⟩
  | cons a rest => rw [hq] at h; simp at h

end BlockQueue

end Chaining.Loop.Tasks
