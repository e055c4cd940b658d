import Mathlib.Tactic.Common

/-! # Runs of a machine whose operations can fault

A machine is a function `exec : σ → ι → Except ε (σ × ο)`: from a state, an operation gives the next
state and an answer, or a fault. `Run` is a run without a fault, with its answers; `Along exec P s
is` says that `P` holds of every state and operation the run of `is` from `s` meets, up to the first
fault. A claim about every run is an `Along`; so are a caller's promises and a condition on the
steps of a run.

* `exists_run`: operations that succeed one after the other, and keep an invariant, can all be run.
* `Along.of_invariant`: what a step does from the invariant, it does all along a run;
  `exists_run_along` says both at once.
* `Run.keeps`, `Run.along_append`: the invariant at the end of a run, and what holds along a longer one.
* `along_iff`: two properties of a step that agree wherever the invariant holds agree along runs.
* `Run.potential`: what the steps of a run cost is covered by the growth of a potential.
* `Run.simulates`: a step-by-step simulation of an abstract machine is one of whole runs;
  `Run.along_of_specRun` is the way back, to a condition on the steps. -/

namespace Chaining.Base.Runs

variable {σ ι ο ε τ : Type*}

/-- A run without a fault: the operations, their answers, and the state reached. -/
inductive Run (exec : σ → ι → Except ε (σ × ο)) : σ → List ι → List ο → σ → Prop
  | nil (s : σ) : Run exec s [] [] s
  | cons {s s₁ s₂ : σ} {i : ι} {o : ο} {is : List ι} {os : List ο} :
      exec s i = .ok (s₁, o) → Run exec s₁ is os s₂ → Run exec s (i :: is) (o :: os) s₂

/-- `P` holds of every state and operation the run of the operations meets. -/
def Along (exec : σ → ι → Except ε (σ × ο)) (P : σ → ι → Prop) : σ → List ι → Prop
  | _, [] => True
  | s, i :: is => P s i ∧ ∀ s' o, exec s i = .ok (s', o) → Along exec P s' is

/-- A run of an abstract machine, given by its step relation. -/
inductive SpecRun (spec : τ → ι → ο → τ → Prop) : τ → List ι → List ο → τ → Prop
  | nil (t : τ) : SpecRun spec t [] [] t
  | cons {t t₁ t₂ : τ} {i : ι} {o : ο} {is : List ι} {os : List ο} :
      spec t i o t₁ → SpecRun spec t₁ is os t₂ → SpecRun spec t (i :: is) (o :: os) t₂

/-- What the steps of the run of the operations cost together. -/
def total (exec : σ → ι → Except ε (σ × ο)) (cost : σ → σ → ℕ) : σ → List ι → ℕ
  | _, [] => 0
  | s, i :: is =>
    match exec s i with
    | .ok (s', _) => cost s s' + total exec cost s' is
    | .error _ => 0

variable {exec : σ → ι → Except ε (σ × ο)} {A P Q : σ → ι → Prop} {I : σ → Prop}

/-- **Progress.** If from the invariant every operation the callers may take succeeds and keeps it,
all of them can be run. -/
theorem exists_run (hstep : ∀ s i, I s → A s i → ∃ s' o, exec s i = .ok (s', o) ∧ I s') :
    ∀ {s : σ} {is : List ι}, I s → Along exec A s is → ∃ os s', Run exec s is os s' ∧ I s'
  | s, [], h0, _ => ⟨[], s, .nil s, h0⟩
  | s, i :: is, h0, hA => by
    obtain ⟨s₁, o, he, h1⟩ := hstep s i h0 hA.1
    obtain ⟨os, s₂, hr, h2⟩ := exists_run hstep h1 (hA.2 s₁ o he)
    exact ⟨o :: os, s₂, .cons he hr, h2⟩

/-- The first step, and the rest. -/
theorem Along.cons {s s' : σ} {i : ι} {o : ο} {is : List ι} (hp : P s i)
    (he : exec s i = .ok (s', o)) (h : Along exec P s' is) : Along exec P s (i :: is) := by
  refine ⟨hp, fun t o' ht => ?_⟩
  cases he.symm.trans ht
  exact h

/-- What the operations satisfy by themselves holds along every run of them. -/
theorem along_of_forall {C : ι → Prop} :
    ∀ (s : σ) {is : List ι}, (∀ i ∈ is, C i) → Along exec (fun _ i => C i) s is
  | _, [], _ => trivial
  | _, i :: _, h =>
    ⟨h i List.mem_cons_self, fun s' _ _ => along_of_forall s' fun j hj =>
      h j (List.mem_cons_of_mem i hj)⟩

/-- Callers who promise nothing keep their promises. -/
theorem along_true (s : σ) (is : List ι) : Along exec (fun _ _ => True) s is :=
  along_of_forall (C := fun _ => True) s fun _ _ => trivial

/-- Where no operation faults, any operations can be run. -/
theorem exists_run_of_total (htotal : ∀ s i, ∃ s' o, exec s i = .ok (s', o)) (s : σ) (is : List ι) :
    ∃ os s', Run exec s is os s' := by
  have hstep : ∀ s i, True → True → ∃ s' o, exec s i = .ok (s', o) ∧ True := by
    intro s i _ _
    obtain ⟨s', o, he⟩ := htotal s i
    exact ⟨s', o, he, trivial⟩
  obtain ⟨os, s', hrun, -⟩ := exists_run hstep trivial (along_true s is)
  exact ⟨os, s', hrun⟩

/-- Where no operation faults, what holds along a run by the operations alone holds of each. -/
theorem along_forall_iff {C : ι → Prop} (htotal : ∀ s i, ∃ s' o, exec s i = .ok (s', o)) :
    ∀ (s : σ) {is : List ι}, Along exec (fun _ i => C i) s is ↔ ∀ i ∈ is, C i
  | _, [] => iff_of_true trivial fun _ hi => absurd hi List.not_mem_nil
  | s, i :: is => by
    refine ⟨fun h => ?_, along_of_forall s⟩
    obtain ⟨s', o, he⟩ := htotal s i
    exact List.forall_mem_cons.mpr ⟨h.1, (along_forall_iff htotal s').mp (h.2 s' o he)⟩

/-- **Invariants.** If every step the callers may take from the invariant has the property `P` and
keeps the invariant, a run has `P` all along. -/
theorem Along.of_invariant (hP : ∀ s i, I s → A s i → P s i)
    (hstep : ∀ s i s' o, I s → A s i → exec s i = .ok (s', o) → I s') :
    ∀ {s : σ} {is : List ι}, I s → Along exec A s is → Along exec P s is
  | _, [], _, _ => trivial
  | s, i :: _, h0, hA =>
    ⟨hP s i h0 hA.1, fun s' o he =>
      Along.of_invariant hP hstep (hstep s i s' o h0 hA.1 he) (hA.2 s' o he)⟩

/-- **Progress with a property**: what can be run, has the property `P` all along, if every step from the
invariant does. -/
theorem exists_run_along
    (hstep : ∀ s i, I s → A s i → (∃ s' o, exec s i = .ok (s', o) ∧ I s') ∧ P s i) {s : σ}
    {is : List ι} (h0 : I s) (hA : Along exec A s is) :
    (∃ os s', Run exec s is os s' ∧ I s') ∧ Along exec P s is := by
  refine ⟨exists_run (fun s i h ha => (hstep s i h ha).1) h0 hA,
    Along.of_invariant (I := I) (fun s i h ha => (hstep s i h ha).2) ?_ h0 hA⟩
  intro s i s' o h ha he
  obtain ⟨s₁, o₁, he₁, h1⟩ := (hstep s i h ha).1
  cases he.symm.trans he₁
  exact h1

/-- What holds along a run that is continued, holds along both parts. -/
theorem Run.along_append {s s' : σ} {is js : List ι} {os : List ο} (h : Run exec s is os s')
    (hP : Along exec P s (is ++ js)) : Along exec P s is ∧ Along exec P s' js := by
  induction h with
  | nil => exact ⟨trivial, hP⟩
  | cons he _ ih =>
    obtain ⟨hown, hrest⟩ := ih (hP.2 _ _ he)
    exact ⟨.cons hP.1 he hown, hrest⟩

/-- Two properties of a step, one beside the other. -/
theorem along_and : ∀ {s : σ} {is : List ι},
    Along exec (fun s i => P s i ∧ Q s i) s is ↔ Along exec P s is ∧ Along exec Q s is
  | _, [] => (and_self_iff (a := True)).symm
  | _, _ :: _ => by
    constructor
    · rintro ⟨⟨hp, hq⟩, hrest⟩
      exact ⟨⟨hp, fun s' o he => (along_and.mp (hrest s' o he)).1⟩,
        hq, fun s' o he => (along_and.mp (hrest s' o he)).2⟩
    · rintro ⟨⟨hp, hp'⟩, hq, hq'⟩
      exact ⟨⟨hp, hq⟩, fun s' o he => along_and.mpr ⟨hp' s' o he, hq' s' o he⟩⟩

/-- **Exact conditions.** If on every state of the invariant a step has the property `P` exactly
when it meets the condition `Q`, and such a step keeps the invariant, then a run has `P` all along
exactly when it meets `Q` all along. -/
theorem along_iff (hPQ : ∀ s i, I s → A s i → (P s i ↔ Q s i))
    (hstep : ∀ s i s' o, I s → A s i → Q s i → exec s i = .ok (s', o) → I s') :
    ∀ {s : σ} {is : List ι}, I s → Along exec A s is → (Along exec P s is ↔ Along exec Q s is)
  | _, [], _, _ => Iff.rfl
  | s, i :: is, h0, hA => by
    have hpq := hPQ s i h0 hA.1
    constructor
    · rintro ⟨hp, hrest⟩
      refine ⟨hpq.mp hp, fun s' o he => ?_⟩
      exact (along_iff hPQ hstep (hstep _ _ _ _ h0 hA.1 (hpq.mp hp) he) (hA.2 _ _ he)).mp
        (hrest s' o he)
    · rintro ⟨hq, hrest⟩
      refine ⟨hpq.mpr hq, fun s' o he => ?_⟩
      exact (along_iff hPQ hstep (hstep _ _ _ _ h0 hA.1 hq he) (hA.2 _ _ he)).mpr (hrest s' o he)

/-- **Potentials.** If from the invariant every step keeps it and lets a potential grow by what it costs,
a run does. -/
theorem Run.potential {c : σ → σ → ℕ} {f : σ → ℕ}
    (hstep : ∀ s i s' o, I s → A s i → exec s i = .ok (s', o) → I s' ∧ c s s' + f s ≤ f s')
    {s s' : σ} {is : List ι} {os : List ο} (h : Run exec s is os s') (h0 : I s)
    (hA : Along exec A s is) : I s' ∧ total exec c s is + f s ≤ f s' := by
  induction h with
  | nil => exact ⟨h0, by simp [total]⟩
  | cons he _ ih =>
    obtain ⟨h1, hle⟩ := hstep _ _ _ _ h0 hA.1 he
    obtain ⟨h2, hrest⟩ := ih h1 (hA.2 _ _ he)
    refine ⟨h2, ?_⟩
    simp only [total, he]
    omega

/-- **Simulation.** If every step can be matched by an abstract step with the same answer, every run
is matched by an abstract run with the same answers. -/
theorem Run.simulates {R : σ → τ → Prop} {spec : τ → ι → ο → τ → Prop}
    (hstep : ∀ s t i s' o, R s t → A s i → exec s i = .ok (s', o) → ∃ t', spec t i o t' ∧ R s' t')
    {s s' : σ} {is : List ι} {os : List ο} (h : Run exec s is os s') {t : τ} (h0 : R s t)
    (hA : Along exec A s is) : ∃ t', SpecRun spec t is os t' ∧ R s' t' := by
  induction h generalizing t with
  | nil => exact ⟨t, .nil t, h0⟩
  | cons he _ ih =>
    obtain ⟨t₁, hs, h1⟩ := hstep _ _ _ _ _ h0 hA.1 he
    obtain ⟨t₂, hr, h2⟩ := ih h1 (hA.2 _ _ he)
    exact ⟨t₂, .cons hs hr, h2⟩

/-- **The converse of a simulation.** If an abstract step with the answer of a step means that the step
met the condition `Q`, a run whose answers an abstract run gives met it all along, and the two end in
related states. -/
theorem Run.along_of_specRun {R : σ → τ → Prop} {spec : τ → ι → ο → τ → Prop}
    (hback : ∀ s t i s' o t', R s t → exec s i = .ok (s', o) → spec t i o t' → Q s i ∧ R s' t')
    {s s' : σ} {is : List ι} {os : List ο} (h : Run exec s is os s') {t t' : τ} (h0 : R s t)
    (hs : SpecRun spec t is os t') : Along exec Q s is ∧ R s' t' := by
  induction h generalizing t with
  | nil =>
    cases hs
    exact ⟨trivial, h0⟩
  | cons he _ ih =>
    cases hs with
    | cons hstep hrest =>
      obtain ⟨hq, h1⟩ := hback _ _ _ _ _ _ h0 he hstep
      obtain ⟨hqs, h2⟩ := ih h1 hrest
      exact ⟨.cons hq he hqs, h2⟩

end Chaining.Base.Runs
