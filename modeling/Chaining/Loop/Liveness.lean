import Chaining.Base.Fair
import Chaining.Loop.Wakeup

/-! # Every task is started in the end

That no wake-up is lost says what the loop does not do; here is what it does, along runs without end.
Two things are promised of them (`Fair`): the loop's thread gets on, except at a wait without a
wake-up; and a thread in `Signal` gets its write done, unless the counter is at its maximum. Nothing
is promised of the wait otherwise, which may report other descriptors or none, nor of the other
threads, which may push without end.

A task in the queue keeps the loop's thread from going to sleep. At the wait a wake-up comes
(`leadsTo_awake`); behind it each step of the loop's thread brings it nearer to a pop (`distance`),
and a push does not take it back (`Step.approach`); each pop starts one of the tasks that are ahead. -/

namespace Chaining.Loop.Liveness

open Chaining.Base.Fair Chaining.Loop.Tasks Chaining.Loop.Wakeup

variable {θ τ : Type*} [DecidableEq θ]

/-- Every step of a behaviour is one of the threads, from a loop that has been constructed. -/
structure Execution (b : ℕ → State θ τ) : Prop where
  init : b 0 = init
  steps : Behaviour Step b

/-- The loop's thread can get on: at the wait, if the event descriptor is ready. -/
def Ready (s : State θ τ) : Prop := s.pc = .wait → 0 < s.counter

/-- **What is promised** of the threads and the kernel. -/
structure Fair (b : ℕ → State θ τ) : Prop where
  loop : WeaklyFair b Ready fun s s' => s'.pc ≠ s.pc
  signal : ∀ i, WeaklyFair b (fun s => s.signalling i = true ∧ (signal s.counter).isSome)
    fun _ s' => s'.signalling i = false

/-- `n` tasks have been started, and there are more. -/
def Owes (n : ℕ) (s : State θ τ) : Prop := s.started.length = n ∧ n < s.pushed.length

/-- How many steps the loop's thread is from a pop, if it is not at the wait and the queue is not
empty. -/
def distance : Pc τ → ℕ
  | .wait => 0
  | .handle ready => ready.length + 4
  | .timers => 3
  | .task _ => 3
  | .test => 2
  | .pop => 1

variable {b : ℕ → State θ τ} {s s' : State θ τ}

theorem Execution.reachable (hb : Execution b) (n : ℕ) : Reachable (b n) := by
  refine hb.steps.invariant (P := Reachable) ?_ (fun _ _ h hs => h.tail hs) n
  rw [hb.init]
  exact .refl

/-! ### What one step does to a task in the queue -/

/-- Both histories grow. -/
theorem Step.grows (h : Step s s') : s.pushed <+: s'.pushed ∧ s.started <+: s'.started := by
  cases h with
  | push i t hi => exact ⟨List.prefix_append _ _, List.prefix_refl _⟩
  | popTask q t hpc hpop => exact ⟨List.prefix_refl _, List.prefix_append _ _⟩
  | waitReturns | handleWakeup | spinRead | handleOther | handled | timersDone | testNonempty
  | testEmpty | popNothing | taskDone | signalled | spinWrite =>
    exact ⟨List.prefix_refl _, List.prefix_refl _⟩

theorem Execution.grows (hb : Execution b) {n m : ℕ} (hnm : n ≤ m) :
    (b n).pushed <+: (b m).pushed ∧ (b n).started <+: (b m).started :=
  hb.steps.mono (r := fun s s' : State θ τ => s.pushed <+: s'.pushed ∧ s.started <+: s'.started)
    (fun _ => ⟨List.prefix_refl _, List.prefix_refl _⟩)
    (fun _ _ _ h h' => ⟨h.1.trans h'.1, h.2.trans h'.2⟩) (fun _ _ h => Step.grows h) hnm

omit [DecidableEq θ] in
/-- Tasks that are owed are in the queue. -/
theorem Owes.nonempty {n : ℕ} (h : Owes n s) (hI : Inv s) : s.pendingTasks.tasks ≠ [] := by
  intro hnil
  have horder := hI.order
  rw [hnil, List.append_nil] at horder
  have hlt := h.2
  rw [← horder, h.1] at hlt
  exact absurd hlt (lt_irrefl n)

/-- **Where the loop's thread goes** while the queue is not empty: not from behind the wait to the
wait, and nearer to a pop, or past it. -/
theorem Step.approach (h : Step s s') (hne : s.pendingTasks.tasks ≠ []) (hpc : s.pc ≠ .wait) :
    s'.pc = s.pc ∧ s'.started = s.started ∨
      (s'.pc ≠ .wait ∧ distance s'.pc < distance s.pc ∧ s'.started = s.started) ∨
      ∃ t, s'.started = s.started ++ [t] := by
  cases h with
  | waitReturns ready hwait => exact absurd hwait hpc
  | handleWakeup rest counter hat hread | handleOther fd rest hat =>
    refine Or.inr (Or.inl ⟨by simp, ?_, rfl⟩)
    rw [hat]
    simp [distance]
  | handled hat | timersDone hat | testNonempty hat hempty | taskDone t hat =>
    refine Or.inr (Or.inl ⟨by simp, ?_, rfl⟩)
    rw [hat]
    simp [distance]
  | testEmpty hat hempty => exact absurd (s.pendingTasks.empty_eq_true.mp hempty) hne
  | popTask q t hat hpop => exact Or.inr (Or.inr ⟨t, rfl⟩)
  | popNothing q hat hpop => exact absurd (BlockQueue.tryPop_none hpop).1 hne
  | spinRead | push | signalled | spinWrite => exact Or.inl ⟨rfl, rfl⟩

/-- **What the other threads do** while the loop's thread is at the wait: it stays there or leaves, a
positive counter stays positive, and a thread is in `Signal` until it has made it so. -/
theorem Step.atWait (h : Step s s') (hpc : s.pc = .wait) :
    s'.pc ≠ .wait ∧ s'.started = s.started ∨
      s'.pc = .wait ∧ s'.started = s.started ∧ s.counter ≤ s'.counter ∧
        ∀ i, s.signalling i = true → s'.signalling i = true ∨ 0 < s'.counter := by
  cases h with
  | waitReturns => exact Or.inl ⟨by simp, rfl⟩
  | spinRead | spinWrite => exact Or.inr ⟨hpc, rfl, le_rfl, fun _ hi => Or.inl hi⟩
  | push i t hi =>
    refine Or.inr ⟨hpc, rfl, le_rfl, fun j hj => Or.inl ?_⟩
    show Function.update s.signalling i true j = true
    by_cases hji : j = i
    · rw [hji, Function.update_self]
    · rwa [Function.update_of_ne hji]
  | signalled i counter hi hwrite =>
    have hle : s.counter ≤ counter := by
      unfold signal at hwrite
      split_ifs at hwrite
      cases hwrite
      exact Nat.le_succ _
    exact Or.inr ⟨hpc, rfl, hle, fun _ _ => Or.inr (signal_pos hwrite)⟩
  | handleWakeup _ _ hat | handleOther _ _ hat | handled hat | timersDone hat | testNonempty hat
  | testEmpty hat | popTask _ _ hat | popNothing _ hat | taskDone _ hat =>
    rw [hpc] at hat
    cases hat

/-- At most one task is started in a step. -/
theorem Owes.step {n : ℕ} (h : Owes n s) (hs : Step s s' ∨ s' = s) :
    Owes n s' ∨ n < s'.started.length := by
  rcases hs with hs | rfl
  · obtain ⟨hpushed, hstarted⟩ := Step.grows hs
    rcases hstarted.length_le.lt_or_eq with hlt | heq
    · exact Or.inr (h.1 ▸ hlt)
    · exact Or.inl ⟨heq ▸ h.1, h.2.trans_le hpushed.length_le⟩
  · exact Or.inl h

/-- The next task has been started, or the loop's thread is on its way to it. -/
def Awake (n : ℕ) (s : State θ τ) : Prop := n < s.started.length ∨ Owes n s ∧ s.pc ≠ .wait

theorem Owes.wait_step {n : ℕ} (h : Owes n s) (hpc : s.pc = .wait) (hs : Step s s' ∨ s' = s) :
    Awake n s' ∨ (Owes n s' ∧ s'.pc = .wait) ∧ s.counter ≤ s'.counter ∧
      ∀ i, s.signalling i = true → s'.signalling i = true ∨ 0 < s'.counter := by
  rcases h.step hs with howes | hlt
  · rcases hs with hs | rfl
    · rcases Step.atWait hs hpc with ⟨hleft, -⟩ | ⟨hstay, -, hcounter, hsignal⟩
      · exact Or.inl (Or.inr ⟨howes, hleft⟩)
      · exact Or.inr ⟨⟨howes, hstay⟩, hcounter, hsignal⟩
    · exact Or.inr ⟨⟨h, hpc⟩, le_rfl, fun _ hi => Or.inl hi⟩
  · exact Or.inl (Or.inl hlt)

/-! ### Behaviours -/

/-- A thread in `Signal` makes the counter positive, if the loop's thread stays at the wait. -/
theorem leadsTo_counter (hb : Execution b) (hfair : Fair b) (n : ℕ) (i : θ) :
    LeadsTo b (fun s => (Owes n s ∧ s.pc = .wait) ∧ s.signalling i = true ∧ s.counter = 0)
      fun s => Awake n s ∨ (Owes n s ∧ s.pc = .wait) ∧ 0 < s.counter := by
  refine leadsTo_of_fair (hfair.signal i) ?_ ?_ ?_
  · rintro m ⟨⟨howes, hpc⟩, hi, -⟩
    rcases howes.wait_step hpc (hb.steps m) with hawake | ⟨hstay, -, hsignal⟩
    · exact Or.inr (Or.inl hawake)
    · rcases Nat.eq_zero_or_pos (b (m + 1)).counter with hzero | hpos
      · exact Or.inl ⟨hstay, (hsignal i hi).resolve_right (by omega), hzero⟩
      · exact Or.inr (Or.inr ⟨hstay, hpos⟩)
  · rintro m ⟨-, hi, hzero⟩
    refine ⟨hi, ?_⟩
    rw [hzero]
    rfl
  · rintro m ⟨⟨howes, hpc⟩, hi, -⟩ hdone
    rcases howes.wait_step hpc (hb.steps m) with hawake | ⟨hstay, -, hsignal⟩
    · exact Or.inl hawake
    · exact Or.inr ⟨hstay, (hsignal i hi).resolve_left (by rw [hdone]; decide)⟩

/-- A positive counter makes the wait return. -/
theorem leadsTo_return (hb : Execution b) (hfair : Fair b) (n : ℕ) :
    LeadsTo b (fun s => (Owes n s ∧ s.pc = .wait) ∧ 0 < s.counter) (Awake n) := by
  refine leadsTo_of_fair hfair.loop ?_ (fun _ h _ => h.2) ?_
  · rintro m ⟨⟨howes, hpc⟩, hpos⟩
    rcases howes.wait_step hpc (hb.steps m) with hawake | ⟨hstay, hle, -⟩
    · exact Or.inr hawake
    · exact Or.inl ⟨hstay, hpos.trans_le hle⟩
  · rintro m ⟨⟨howes, hpc⟩, -⟩ hleft
    rcases howes.wait_step hpc (hb.steps m) with hawake | ⟨⟨-, hstay⟩, -⟩
    · exact hawake
    · exact absurd (hstay.trans hpc.symm) hleft

/-- **The wait is left** while there is a task in the queue: a thread is in `Signal` or the counter is
positive, the one leads to the other, and that to the wait's return. -/
theorem leadsTo_awake (hb : Execution b) (hfair : Fair b) (n : ℕ) :
    LeadsTo b (Owes n) (Awake n) := by
  intro m howes
  by_cases hpc : (b m).pc = .wait
  · have hI := (hb.reachable m).inv
    rcases Nat.eq_zero_or_pos (b m).counter with hzero | hpos
    · obtain ⟨i, hi⟩ := (hI.wait hpc (howes.nonempty hI)).resolve_left (by omega)
      obtain ⟨k, hmk, hawake | hready⟩ := leadsTo_counter hb hfair n i m ⟨⟨howes, hpc⟩, hi, hzero⟩
      · exact ⟨k, hmk, hawake⟩
      · obtain ⟨l, hkl, hl⟩ := leadsTo_return hb hfair n k hready
        exact ⟨l, hmk.trans hkl, hl⟩
    · exact leadsTo_return hb hfair n m ⟨⟨howes, hpc⟩, hpos⟩
  · exact ⟨m, le_rfl, Or.inr ⟨howes, hpc⟩⟩

/-- **Behind the wait** every step of the loop's thread brings it nearer to the pop. -/
theorem leadsTo_pop (hb : Execution b) (hfair : Fair b) (n : ℕ) :
    LeadsTo b (fun s => Owes n s ∧ s.pc ≠ .wait) fun s => n < s.started.length := by
  have hstep : ∀ m, Owes n (b m) ∧ (b m).pc ≠ .wait → n < (b (m + 1)).started.length ∨
      (Owes n (b (m + 1)) ∧ (b (m + 1)).pc ≠ .wait) ∧
        ((b (m + 1)).pc = (b m).pc ∨ distance (b (m + 1)).pc < distance (b m).pc) := by
    rintro m ⟨howes, hpc⟩
    rcases howes.step (hb.steps m) with howes' | hlt
    · rcases hb.steps m with hs | heq
      · have hne := howes.nonempty (hb.reachable m).inv
        rcases Step.approach hs hne hpc with ⟨hsame, -⟩ | ⟨hpc', hlt, -⟩ | ⟨t, ht⟩
        · exact Or.inr ⟨⟨howes', hsame ▸ hpc⟩, Or.inl hsame⟩
        · exact Or.inr ⟨⟨howes', hpc'⟩, Or.inr hlt⟩
        · refine Or.inl ?_
          rw [ht, List.length_append, howes.1]
          exact Nat.lt_succ_self n
      · exact Or.inr ⟨heq ▸ ⟨howes, hpc⟩, Or.inl (congrArg State.pc heq)⟩
    · exact Or.inl hlt
  refine leadsTo_of_rank (f := fun s => distance s.pc) hfair.loop
    (fun _ h hpc => absurd hpc h.2) ?_ ?_
  · intro m hm
    rcases hstep m hm with hlt | ⟨hP, hsame | hlt⟩
    · exact Or.inl hlt
    · exact Or.inr ⟨hP, (congrArg distance hsame).le⟩
    · exact Or.inr ⟨hP, hlt.le⟩
  · intro m hm hmoved
    rcases hstep m hm with hlt | ⟨hP, hsame | hlt⟩
    · exact Or.inl hlt
    · exact absurd hsame hmoved
    · exact Or.inr ⟨hP, hlt⟩

/-- One more task is started. -/
theorem leadsTo_next (hb : Execution b) (hfair : Fair b) (n : ℕ) :
    LeadsTo b (Owes n) fun s => n < s.started.length :=
  (leadsTo_awake hb hfair n).trans
    (LeadsTo.or (.of_imp fun _ h => h) (leadsTo_pop hb hfair n))

omit [DecidableEq θ] in
/-- What stands in a list stands there in a longer one. -/
theorem getElem?_of_prefix {α : Type*} {l l' : List α} (h : l <+: l') {k : ℕ} {x : α}
    (hk : l[k]? = some x) : l'[k]? = some x := by
  obtain ⟨rest, rfl⟩ := h
  obtain ⟨hlt, -⟩ := List.getElem?_eq_some_iff.mp hk
  rw [List.getElem?_append_left hlt, hk]

/-- By induction over the tasks that are ahead. -/
theorem eventually_started (hb : Execution b) (hfair : Fair b) {n k : ℕ}
    (hk : k < (b n).pushed.length) : ∃ m ≥ n, k < (b m).started.length := by
  have hcount : ∀ j ≤ k + 1, ∃ m ≥ n, j ≤ (b m).started.length := by
    intro j
    induction j with
    | zero => exact fun _ => ⟨n, le_rfl, Nat.zero_le _⟩
    | succ j ih =>
      intro hj
      obtain ⟨m, hnm, hm⟩ := ih (Nat.le_of_succ_le hj)
      rcases hm.lt_or_eq with hm | hm
      · exact ⟨m, hnm, hm⟩
      · have hpushed := (hb.grows hnm).1.length_le
        obtain ⟨l, hml, hl⟩ := leadsTo_next hb hfair j m ⟨hm.symm, by omega⟩
        exact ⟨l, hnm.trans hml, hl⟩
  exact hcount (k + 1) le_rfl

/-- **Every task is started in the end**, whatever the other threads push meanwhile: the `k`-th task
that was pushed is the `k`-th that is started. -/
theorem every_task_started (hb : Execution b) (hfair : Fair b) {n k : ℕ} {t : τ}
    (hk : (b n).pushed[k]? = some t) : ∃ m ≥ n, (b m).started[k]? = some t := by
  obtain ⟨hlt, -⟩ := List.getElem?_eq_some_iff.mp hk
  obtain ⟨m, hnm, hm⟩ := eventually_started hb hfair hlt
  refine ⟨m, hnm, ?_⟩
  have hpushed := getElem?_of_prefix (hb.grows hnm).1 hk
  rwa [← (hb.reachable m).inv.order, List.getElem?_append_left hm] at hpushed

/-- One task is pushed and signalled, started and run, and then nothing happens any more. -/
def oneTask : ℕ → State Bool ℕ
  | 0 => init
  | 1 => { wokenOnce with
      pc := .wait, counter := 0, signalling := Function.update (fun _ => false) true true }
  | 2 => { wokenOnce with pc := .wait }
  | 3 => wokenOnce
  | 4 => { wokenOnce with pc := .handle [], counter := 0 }
  | 5 => { wokenOnce with pc := .timers, counter := 0 }
  | 6 => { wokenOnce with pc := .test, counter := 0 }
  | 7 => { wokenOnce with pc := .pop, counter := 0 }
  | 8 => { wokenOnce with pc := .task 7, counter := 0, pendingTasks := ⟨[]⟩, started := [7] }
  | 9 => { wokenOnce with pc := .test, counter := 0, pendingTasks := ⟨[]⟩, started := [7] }
  | _ + 10 => { wokenOnce with pc := .wait, counter := 0, pendingTasks := ⟨[]⟩, started := [7] }

theorem execution_oneTask : Execution oneTask where
  init := rfl
  steps
    | 0 => Or.inl (.push _ true 7 rfl)
    | 1 => Or.inl (.signalled _ true 1 rfl rfl)
    | 2 => Or.inl (.waitReturns _ [.wakeup] rfl (by decide) fun _ => Nat.one_pos)
    | 3 => Or.inl (.handleWakeup _ [] 0 rfl rfl)
    | 4 => Or.inl (.handled _ rfl)
    | 5 => Or.inl (.timersDone _ rfl)
    | 6 => Or.inl (.testNonempty _ rfl rfl)
    | 7 => Or.inl (.popTask _ ⟨[]⟩ 7 rfl rfl)
    | 8 => Or.inl (.taskDone _ 7 rfl)
    | 9 => Or.inl (.testEmpty _ rfl rfl)
    | _ + 10 => Or.inr rfl

theorem fair_oneTask : Fair oneTask where
  loop n h := absurd (h (n + 10) (Nat.le_add_right n 10) rfl) (lt_irrefl 0)
  signal i n h := by
    have hi := (h (n + 10) (Nat.le_add_right n 10)).1
    change Function.update (Function.update (fun _ => false) true true) true false i = true at hi
    cases i <;> simp at hi

theorem every_task_started_one :
    (oneTask 1).pushed[0]? = some 7 ∧ ∃ m ≥ 1, (oneTask m).started[0]? = some 7 :=
  ⟨rfl, every_task_started execution_oneTask fair_oneTask rfl⟩

end Chaining.Loop.Liveness
