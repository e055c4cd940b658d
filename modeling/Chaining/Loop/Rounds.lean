import Chaining.Loop.Liveness
import Mathlib.Data.Fintype.Basic
import Mathlib.Data.Finset.Card

/-! # The loop goes round

`doPendingTask` pops tasks as long as there are any, also those that are pushed meanwhile, so that
nothing in it bounds how long the channels and the timers have to wait. What does is the counter of the
event descriptor: it is not read before the next wait, each push is followed by a signal that adds to
it, and at its maximum a thread does not come out of `Signal`. So there is room for a number of pushes
(`budget`), and what has been started and what may still come add up to the same along the whole drain
(`Step.drain`, `drain_bounded`).

It follows that the loop's thread comes to its timers again and again, if the wait always ends
(`timers_again`). -/

namespace Chaining.Loop.Rounds

open Relation (ReflTransGen)
open Chaining.Base.Fair Chaining.Loop.Tasks Chaining.Loop.Wakeup Chaining.Loop.Liveness

variable {θ τ : Type*} [DecidableEq θ] [Fintype θ]

/-- The loop's thread is in `doPendingTask`. -/
def Pending : Pc τ → Prop
  | .test | .pop | .task _ => True
  | _ => False

/-- The threads that are not in `Signal`. -/
def idle (s : State θ τ) : Finset θ := Finset.univ.filter fun i => s.signalling i = false

/-- How many pushes there is room for before the counter is read. -/
def budget (s : State θ τ) : ℕ := counterMax - s.counter + (idle s).card

/-- How many tasks may still be started before the counter is read. -/
def owed (s : State θ τ) : ℕ := s.pendingTasks.tasks.length + budget s

/-- How many steps the loop's thread is from a task that it has started to the next, at most. -/
def place : Pc τ → ℕ
  | .test => 1
  | .task _ => 2
  | _ => 0

variable {b : ℕ → State θ τ} {s s' : State θ τ}

/-- A push takes a thread out of the idle ones. -/
theorem budget_push (i : θ) (t : τ) (hi : s.signalling i = false) :
    budget { s with
      pendingTasks := s.pendingTasks.push t
      signalling := Function.update s.signalling i true
      pushed := s.pushed ++ [t] } + 1 = budget s := by
  have hmem : i ∈ idle s := Finset.mem_filter.mpr ⟨Finset.mem_univ i, hi⟩
  have hidle : (Finset.univ.filter fun j => Function.update s.signalling i true j = false) =
      (idle s).erase i := by
    ext j
    by_cases hji : j = i
    · simp [hji]
    · simp [idle, hji]
  have hcard := Finset.card_erase_add_one hmem
  simp only [budget, idle] at hcard ⊢
  rw [hidle]
  simp only [idle]
  omega

/-- A signal puts a thread back and takes from the room in the counter. -/
theorem budget_signalled {i : θ} {counter : ℕ} (hi : s.signalling i = true)
    (hwrite : signal s.counter = some counter) :
    budget { s with signalling := Function.update s.signalling i false, counter := counter } =
      budget s := by
  have hnot : i ∉ idle s := fun hmem => by
    have hidle := (Finset.mem_filter.mp hmem).2
    rw [hi] at hidle
    cases hidle
  have hidle : (Finset.univ.filter fun j => Function.update s.signalling i false j = false) =
      insert i (idle s) := by
    ext j
    by_cases hji : j = i
    · simp [hji]
    · simp [idle, hji]
  have hcard := Finset.card_insert_of_notMem hnot
  unfold signal at hwrite
  split_ifs at hwrite with hroom
  cases hwrite
  unfold budget
  show counterMax - (s.counter + 1) + (Finset.univ.filter fun j =>
    Function.update s.signalling i false j = false).card = _
  rw [hidle, hcard]
  omega

/-- **One step of a drain**: what has been started and what may still come add up to the same. -/
theorem Step.drain (h : Step s s') (hpc : Pending s.pc) :
    s'.started.length + owed s' = s.started.length + owed s := by
  cases h with
  | push i t hi =>
    have hbudget := budget_push i t hi
    unfold owed
    rw [← hbudget]
    simp only [BlockQueue.tasks_push, List.length_append, List.length_singleton]
    omega
  | signalled i counter hi hwrite =>
    unfold owed
    rw [budget_signalled hi hwrite]
  | popTask q t hat hpop =>
    have htasks := congrArg List.length (BlockQueue.tryPop_some hpop)
    rw [List.length_cons] at htasks
    have hsame : budget { s with
        pc := .task t, pendingTasks := q, started := s.started ++ [t] } = budget s := rfl
    unfold owed
    rw [hsame, htasks]
    simp only [List.length_append, List.length_singleton]
    omega
  | popNothing q hat hpop =>
    obtain ⟨-, rfl⟩ := BlockQueue.tryPop_none hpop
    rfl
  | testNonempty | testEmpty | taskDone | spinRead | spinWrite => rfl
  | waitReturns _ hat | handleWakeup _ _ hat | handleOther _ _ hat | handled hat | timersDone hat =>
    rw [hat] at hpc
    exact hpc.elim

omit [Fintype θ] in
/-- Where the loop's thread goes in a drain. -/
theorem Step.pending (h : Step s s') (hpc : Pending s.pc) :
    s'.pc = .wait ∨ Pending s'.pc ∧ (s'.pc = s.pc ∧ s'.started = s.started ∨
      place s'.pc < place s.pc ∧ s'.started = s.started ∨
      place s'.pc = place s.pc + 2 ∧ s'.started.length = s.started.length + 1) := by
  cases h with
  | testEmpty | popNothing => exact Or.inl rfl
  | testNonempty hat =>
    refine Or.inr ⟨trivial, Or.inr (Or.inl ⟨?_, rfl⟩)⟩
    rw [hat]
    exact Nat.one_pos
  | taskDone t hat =>
    refine Or.inr ⟨trivial, Or.inr (Or.inl ⟨?_, rfl⟩)⟩
    rw [hat]
    exact Nat.one_lt_two
  | popTask q t hat =>
    refine Or.inr ⟨trivial, Or.inr (Or.inr ⟨?_, List.length_append⟩)⟩
    rw [hat]
    rfl
  | spinRead | push | signalled | spinWrite => exact Or.inr ⟨hpc, Or.inl ⟨rfl, rfl⟩⟩
  | waitReturns _ hat | handleWakeup _ _ hat | handleOther _ _ hat | handled hat | timersDone hat =>
    rw [hat] at hpc
    exact hpc.elim

/-- **A drain is bounded**: as long as the loop's thread does not go back to the wait, it starts no more
tasks than there are in the queue and there is room for. -/
theorem drain_bounded (h : ReflTransGen (fun s s' => Step s s' ∧ Pending s.pc) s s') :
    s'.started.length ≤ s.started.length + s.pendingTasks.tasks.length +
      (counterMax - s.counter + (idle s).card) := by
  have hsum : s'.started.length + owed s' = s.started.length + owed s := by
    induction h with
    | refl => rfl
    | tail _ hstep ih => rw [Step.drain hstep.1 hstep.2, ih]
  unfold owed budget at hsum
  omega

/-- A drain that starts the only task there is, with room for two threads to push. -/
theorem drain_bounded_one :
    ReflTransGen (fun s s' : State Bool ℕ => Step s s' ∧ Pending s.pc)
        { wokenOnce with pc := .test, counter := 0 }
        { wokenOnce with pc := .task 7, counter := 0, pendingTasks := ⟨[]⟩, started := [7] } ∧
      1 ≤ 0 + 1 + (counterMax - 0 +
        (idle { wokenOnce with pc := .test, counter := 0 }).card) := by
  have h : ReflTransGen (fun s s' : State Bool ℕ => Step s s' ∧ Pending s.pc)
      { wokenOnce with pc := .test, counter := 0 } { wokenOnce with pc := .pop, counter := 0 } :=
    .single ⟨.testNonempty _ rfl rfl, trivial⟩
  have h' := h.tail ⟨.popTask _ ⟨[]⟩ 7 rfl rfl, trivial⟩
  exact ⟨h', drain_bounded h'⟩

/-! ### Behaviours -/

/-- A drain ends. -/
theorem leadsTo_wait (hb : Behaviour Step b)
    (hfair : WeaklyFair b Ready fun s s' => s'.pc ≠ s.pc) :
    LeadsTo b (fun s => Pending s.pc) fun s => s.pc = .wait := by
  have hstep : ∀ n, Pending (b n).pc → (b (n + 1)).pc = .wait ∨ Pending (b (n + 1)).pc ∧
      ((b (n + 1)).pc = (b n).pc ∧
          3 * owed (b (n + 1)) + place (b (n + 1)).pc = 3 * owed (b n) + place (b n).pc ∨
        3 * owed (b (n + 1)) + place (b (n + 1)).pc < 3 * owed (b n) + place (b n).pc) := by
    intro n hpc
    rcases hb n with hs | heq
    · have hdrain := Step.drain hs hpc
      rcases Step.pending hs hpc with hwait | ⟨hpc', ⟨hsame, hnone⟩ | ⟨hlt, hnone⟩ | ⟨hplace, hone⟩⟩
      · exact Or.inl hwait
      · rw [hnone] at hdrain
        rw [hsame]
        exact Or.inr ⟨hpc, Or.inl ⟨rfl, by omega⟩⟩
      · rw [hnone] at hdrain
        exact Or.inr ⟨hpc', Or.inr (by omega)⟩
      · exact Or.inr ⟨hpc', Or.inr (by omega)⟩
    · rw [heq]
      exact Or.inr ⟨hpc, Or.inl ⟨rfl, rfl⟩⟩
  refine leadsTo_of_rank (f := fun s => 3 * owed s + place s.pc) hfair ?_ ?_ ?_
  · intro n hpc hwait
    rw [hwait] at hpc
    exact hpc.elim
  · intro n hpc
    rcases hstep n hpc with hwait | ⟨hpc', ⟨-, heq⟩ | hlt⟩
    · exact Or.inl hwait
    · exact Or.inr ⟨hpc', heq.le⟩
    · exact Or.inr ⟨hpc', hlt.le⟩
  · intro n hpc hmoved
    rcases hstep n hpc with hwait | ⟨hpc', ⟨hsame, -⟩ | hlt⟩
    · exact Or.inl hwait
    · exact absurd hsame hmoved
    · exact Or.inr ⟨hpc', hlt⟩

/-- The loop's thread is behind the wait and before the timers. -/
def Handles (s : State θ τ) : Prop := ∃ ready, s.pc = .handle ready

/-- How many channels are to be handled. -/
def toHandle : Pc τ → ℕ
  | .handle ready => ready.length
  | _ => 0

omit [Fintype θ] in
theorem Step.handles (h : Step s s') (hh : Handles s) :
    s'.pc = .timers ∨ Handles s' ∧ (s'.pc = s.pc ∨ toHandle s'.pc < toHandle s.pc) := by
  obtain ⟨ready, hat⟩ := hh
  cases h with
  | handled => exact Or.inl rfl
  | handleWakeup rest counter hpc | handleOther fd rest hpc =>
    refine Or.inr ⟨⟨rest, rfl⟩, Or.inr ?_⟩
    rw [hpc]
    exact Nat.lt_succ_self _
  | spinRead | push | signalled | spinWrite => exact Or.inr ⟨⟨ready, hat⟩, Or.inl rfl⟩
  | waitReturns _ hpc | timersDone hpc | testNonempty hpc | testEmpty hpc | popTask _ _ hpc
  | popNothing _ hpc | taskDone _ hpc =>
    rw [hat] at hpc
    cases hpc

omit [Fintype θ] in
/-- The channels come to an end. -/
theorem leadsTo_timers (hb : Behaviour Step b)
    (hfair : WeaklyFair b Ready fun s s' => s'.pc ≠ s.pc) :
    LeadsTo b Handles fun s => s.pc = .timers := by
  have hstep : ∀ n, Handles (b n) → (b (n + 1)).pc = .timers ∨ Handles (b (n + 1)) ∧
      ((b (n + 1)).pc = (b n).pc ∨ toHandle (b (n + 1)).pc < toHandle (b n).pc) := by
    intro n hh
    rcases hb n with hs | heq
    · exact Step.handles hs hh
    · exact Or.inr ⟨heq ▸ hh, Or.inl (congrArg State.pc heq)⟩
  refine leadsTo_of_rank (f := fun s => toHandle s.pc) hfair ?_ ?_ ?_
  · rintro n ⟨ready, hat⟩ hwait
    rw [hat] at hwait
    cases hwait
  · intro n hh
    rcases hstep n hh with hdone | ⟨hh', hsame | hlt⟩
    · exact Or.inl hdone
    · exact Or.inr ⟨hh', (congrArg toHandle hsame).le⟩
    · exact Or.inr ⟨hh', hlt.le⟩
  · intro n hh hmoved
    rcases hstep n hh with hdone | ⟨hh', hsame | hlt⟩
    · exact Or.inl hdone
    · exact absurd hsame hmoved
    · exact Or.inr ⟨hh', hlt⟩

omit [Fintype θ] in
theorem Step.returns (h : Step s s') (hpc : s.pc = .wait) : s'.pc = .wait ∨ Handles s' := by
  cases h with
  | waitReturns ready => exact Or.inr ⟨ready, rfl⟩
  | spinRead | push | signalled | spinWrite => exact Or.inl hpc
  | handleWakeup _ _ hat | handleOther _ _ hat | handled hat | timersDone hat | testNonempty hat
  | testEmpty hat | popTask _ _ hat | popNothing _ hat | taskDone _ hat =>
    rw [hpc] at hat
    cases hat

omit [Fintype θ] in
/-- A wait that ends returns. -/
theorem leadsTo_handles (hb : Behaviour Step b)
    (hwait : ∀ n, (b n).pc = .wait → ∃ m ≥ n, (b m).pc ≠ .wait) :
    LeadsTo b (fun s => s.pc = .wait) Handles := by
  intro n hn
  by_contra hnever
  have hstay : ∀ m ≥ n, (b m).pc = .wait := fun m hm => by
    induction m, hm using Nat.le_induction with
    | base => exact hn
    | succ m hm ih =>
      rcases hb m with hs | heq
      · exact (Step.returns hs ih).resolve_right fun hh => hnever ⟨m + 1, Nat.le_succ_of_le hm, hh⟩
      · rw [heq, ih]
  obtain ⟨m, hm, hleft⟩ := hwait n hn
  exact hleft (hstay m hm)

omit [DecidableEq θ] [Fintype θ] in
/-- The timers are left. -/
theorem leaves_timers (hfair : WeaklyFair b Ready fun s s' => s'.pc ≠ s.pc) {n : ℕ}
    (hn : (b n).pc = .timers) : ∃ m ≥ n, (b m).pc = .timers ∧ (b (m + 1)).pc ≠ (b m).pc := by
  by_contra hnever
  have hstay : ∀ m ≥ n, (b m).pc = .timers := fun m hm => by
    induction m, hm using Nat.le_induction with
    | base => exact hn
    | succ m hm ih =>
      by_contra hne
      exact hnever ⟨m, hm, ih, ih ▸ hne⟩
  obtain ⟨m, hm, hmoved⟩ := hfair n fun m hm hwait => by
    rw [hstay m hm] at hwait
    cases hwait
  exact hnever ⟨m, hm, hstay m hm, hmoved⟩

/-- **The loop's thread comes to its timers again and again**, if the wait always ends. -/
theorem timers_again (hb : Behaviour Step b)
    (hfair : WeaklyFair b Ready fun s s' => s'.pc ≠ s.pc)
    (hwait : ∀ n, (b n).pc = .wait → ∃ m ≥ n, (b m).pc ≠ .wait) (n : ℕ) :
    ∃ m ≥ n, (b m).pc = .timers := by
  have hround : LeadsTo b (fun s => s.pc = .wait) fun s => s.pc = .timers :=
    (leadsTo_handles hb hwait).trans (leadsTo_timers hb hfair)
  have hdrain := (leadsTo_wait hb hfair).trans hround
  match hpc : (b n).pc with
  | .wait => exact hround n hpc
  | .handle ready => exact leadsTo_timers hb hfair n ⟨ready, hpc⟩
  | .timers => exact ⟨n, le_rfl, hpc⟩
  | .test | .pop | .task _ =>
    refine hdrain n ?_
    show Pending (b n).pc
    rw [hpc]
    trivial

end Chaining.Loop.Rounds
