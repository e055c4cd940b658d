import Mathlib.Data.Nat.Init
import Mathlib.Order.Nat

/-! # What happens in the end

A behaviour is an infinite sequence of states `b : ℕ → σ`, each of which is the one before it or comes
from it by a step. `LeadsTo b P Q` says that from every moment with `P` on a moment with `Q` comes;
`WeaklyFair b E A` says that the action `A` is taken again and again unless `E`, on which it can be,
fails now and then.

* `Behaviour.invariant`: what the steps keep holds at every moment.
* `leadsTo_of_fair`: one fair action leads from `P` to `Q`.
* `leadsTo_of_rank`: a fair action leads from `P` to `Q` if every time it is taken, and `Q` does not
  hold then, a rank goes down that no other step lets go up. -/

namespace Chaining.Base.Fair

variable {σ : Type*}

/-- Steps, and moments at which nothing happens. -/
def Behaviour (step : σ → σ → Prop) (b : ℕ → σ) : Prop :=
  ∀ n, step (b n) (b (n + 1)) ∨ b (n + 1) = b n

/-- From every moment with `P` on, a moment with `Q` comes. -/
def LeadsTo (b : ℕ → σ) (P Q : σ → Prop) : Prop := ∀ n, P (b n) → ∃ m ≥ n, Q (b m)

/-- **Weak fairness**: an action that can be taken from some moment on is taken. -/
def WeaklyFair (b : ℕ → σ) (enabled : σ → Prop) (act : σ → σ → Prop) : Prop :=
  ∀ n, (∀ m ≥ n, enabled (b m)) → ∃ m ≥ n, act (b m) (b (m + 1))

variable {step : σ → σ → Prop} {b : ℕ → σ} {P Q R : σ → Prop}

/-- What the first state has and every step keeps holds at every moment. -/
theorem Behaviour.invariant (hb : Behaviour step b) (h0 : P (b 0))
    (hstep : ∀ s s', P s → step s s' → P s') : ∀ n, P (b n)
  | 0 => h0
  | n + 1 => by
    have ih := hb.invariant h0 hstep n
    rcases hb n with h | h
    · exact hstep _ _ ih h
    · rwa [h]

/-- What every step lets grow has grown between two moments. -/
theorem Behaviour.mono {r : σ → σ → Prop} (hb : Behaviour step b) (hrefl : ∀ s, r s s)
    (htrans : ∀ s s' s'', r s s' → r s' s'' → r s s'') (hstep : ∀ s s', step s s' → r s s')
    {n m : ℕ} (hnm : n ≤ m) : r (b n) (b m) := by
  induction m, hnm using Nat.le_induction with
  | base => exact hrefl _
  | succ m _ ih =>
    rcases hb m with h | h
    · exact htrans _ _ _ ih (hstep _ _ h)
    · rwa [h]

/-- A behaviour from a later moment on. -/
theorem Behaviour.shift (hb : Behaviour step b) (k : ℕ) : Behaviour step fun n => b (k + n) :=
  fun n => hb (k + n)

theorem WeaklyFair.shift {enabled : σ → Prop} {act : σ → σ → Prop} (h : WeaklyFair b enabled act)
    (k : ℕ) : WeaklyFair (fun n => b (k + n)) enabled act := by
  intro n hn
  obtain ⟨m, hm, ha⟩ := h (k + n) fun m hm => by
    have heq : k + (m - k) = m := by omega
    exact heq ▸ hn (m - k) (by omega)
  have heq : k + (m - k) = m := by omega
  refine ⟨m - k, by omega, ?_⟩
  show act (b (k + (m - k))) (b (k + (m - k) + 1))
  rwa [heq]

theorem LeadsTo.of_imp (h : ∀ n, P (b n) → Q (b n)) : LeadsTo b P Q :=
  fun n hn => ⟨n, le_rfl, h n hn⟩

theorem LeadsTo.trans (h : LeadsTo b P Q) (h' : LeadsTo b Q R) : LeadsTo b P R := by
  intro n hn
  obtain ⟨m, hnm, hm⟩ := h n hn
  obtain ⟨k, hmk, hk⟩ := h' m hm
  exact ⟨k, hnm.trans hmk, hk⟩

theorem LeadsTo.or (h : LeadsTo b P R) (h' : LeadsTo b Q R) :
    LeadsTo b (fun s => P s ∨ Q s) R := by
  rintro n (hn | hn)
  · exact h n hn
  · exact h' n hn

/-- **One fair action.** `P` is kept until `Q` holds, the action can be taken as long as `P` holds, and
taking it gives `Q`. -/
theorem leadsTo_of_fair {enabled : σ → Prop} {act : σ → σ → Prop} (hfair : WeaklyFair b enabled act)
    (hkeep : ∀ n, P (b n) → P (b (n + 1)) ∨ Q (b (n + 1))) (henabled : ∀ n, P (b n) → enabled (b n))
    (hact : ∀ n, P (b n) → act (b n) (b (n + 1)) → Q (b (n + 1))) : LeadsTo b P Q := by
  intro n hn
  by_contra hnever
  have hQ : ∀ m ≥ n, ¬ Q (b m) := fun m hm hq => hnever ⟨m, hm, hq⟩
  have hP : ∀ m ≥ n, P (b m) := fun m hm => by
    induction m, hm using Nat.le_induction with
    | base => exact hn
    | succ m hm ih => exact (hkeep m ih).resolve_right (hQ _ (Nat.le_succ_of_le hm))
  obtain ⟨m, hm, ha⟩ := hfair n fun m hm => henabled m (hP m hm)
  exact hQ _ (Nat.le_succ_of_le hm) (hact m (hP m hm) ha)

/-- **A rank.** If from `P` with any rank one comes to `Q`, or to `P` with a lower rank, one comes to
`Q`. -/
theorem leadsTo_of_lower {f : σ → ℕ}
    (h : ∀ r, LeadsTo b (fun s => P s ∧ f s = r) fun s => Q s ∨ P s ∧ f s < r) :
    LeadsTo b P Q := by
  have hrank : ∀ r n, P (b n) → f (b n) = r → ∃ m ≥ n, Q (b m) := by
    intro r
    induction r using Nat.strong_induction_on with
    | _ r ih =>
      intro n hn hr
      obtain ⟨m, hnm, hm | ⟨hm, hlt⟩⟩ := h r n ⟨hn, hr⟩
      · exact ⟨m, hnm, hm⟩
      · obtain ⟨k, hmk, hk⟩ := ih _ hlt m hm rfl
        exact ⟨k, hnm.trans hmk, hk⟩
  exact fun n hn => hrank _ n hn rfl

/-- **A fair action with a rank.** Each time the action is taken `Q` holds or the rank goes down, and in
between it does not go up. -/
theorem leadsTo_of_rank {enabled : σ → Prop} {act : σ → σ → Prop} {f : σ → ℕ}
    (hfair : WeaklyFair b enabled act) (henabled : ∀ n, P (b n) → enabled (b n))
    (hkeep : ∀ n, P (b n) → Q (b (n + 1)) ∨ P (b (n + 1)) ∧ f (b (n + 1)) ≤ f (b n))
    (hact : ∀ n, P (b n) → act (b n) (b (n + 1)) →
      Q (b (n + 1)) ∨ P (b (n + 1)) ∧ f (b (n + 1)) < f (b n)) : LeadsTo b P Q := by
  refine leadsTo_of_lower (f := f) fun r => leadsTo_of_fair hfair ?_ ?_ ?_
  · rintro n ⟨hn, hr⟩
    rcases hkeep n hn with hq | ⟨hp, hle⟩
    · exact Or.inr (Or.inl hq)
    · rcases hle.lt_or_eq with hlt | heq
      · exact Or.inr (Or.inr ⟨hp, hr ▸ hlt⟩)
      · exact Or.inl ⟨hp, heq.trans hr⟩
  · exact fun n hn => henabled n hn.1
  · rintro n ⟨hn, hr⟩ ha
    rcases hact n hn ha with hq | ⟨hp, hlt⟩
    · exact Or.inl hq
    · exact Or.inr ⟨hp, hr ▸ hlt⟩

end Chaining.Base.Fair
