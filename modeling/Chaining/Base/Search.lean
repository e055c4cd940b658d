import Mathlib.Data.List.Infix
import Mathlib.Tactic.Common

/-! # First occurrences of a pattern

`search pat l` scans `l` from the left for `pat` and answers the index of the first occurrence, or
`l.length` if there is none (the convention of a library search over a half-open range, which
answers the end of the range). `FirstAt pat l i` says the same declaratively.

* `search_lt_iff`, `firstAt_search`, `search_eq_of_firstAt`: for a nonempty pattern the scan and the
  declaration agree.
* `firstAt_append_pair`: a two-symbol delimiter that does not occur in `l` is first found after `l`
  in `l ++ delimiter ++ r`: it cannot straddle the end of `l`. -/

namespace Chaining.Base.Search

variable {α : Type*}

/-- `pat` occurs in `l` at index `i`. -/
def OccursAt (pat l : List α) (i : ℕ) : Prop := pat <+: l.drop i

/-- `pat` occurs somewhere in `l`. -/
def Occurs (pat l : List α) : Prop := ∃ i, OccursAt pat l i

/-- The first occurrence of `pat` in `l` is at index `i`. -/
def FirstAt (pat l : List α) (i : ℕ) : Prop := OccursAt pat l i ∧ ∀ j < i, ¬ OccursAt pat l j

/-- **The scan**: the index of the first occurrence, the length of the list if there is none. -/
def search [DecidableEq α] (pat : List α) : List α → ℕ
  | [] => 0
  | a :: l => if pat <+: a :: l then 0 else search pat l + 1

theorem OccursAt.lt_length {pat l : List α} {i : ℕ} (hp : pat ≠ []) (h : OccursAt pat l i) :
    i < l.length := by
  have hle := h.length_le
  have hpos := List.length_pos_of_ne_nil hp
  rw [List.length_drop] at hle
  omega

theorem not_occurs_nil {pat : List α} (hp : pat ≠ []) : ¬ Occurs pat [] := by
  rintro ⟨i, hi⟩
  exact absurd (hi.lt_length hp) (by simp)

/-- There is no occurrence in front of the first one. -/
theorem FirstAt.not_occurs_take {pat l : List α} {i : ℕ} (hp : pat ≠ []) (h : FirstAt pat l i) :
    ¬ Occurs pat (l.take i) := by
  rintro ⟨j, hj⟩
  have hlt := hj.lt_length hp
  rw [List.length_take] at hlt
  refine h.2 j (by omega) (hj.trans ?_)
  rw [List.drop_take]
  exact List.take_prefix _ _

theorem firstAt_zero_iff {pat l : List α} : FirstAt pat l 0 ↔ pat <+: l :=
  ⟨fun h => h.1, fun h => ⟨h, fun j hj => absurd hj (Nat.not_lt_zero j)⟩⟩

theorem firstAt_unique {pat l : List α} {i j : ℕ} (hi : FirstAt pat l i) (hj : FirstAt pat l j) :
    i = j := by
  rcases Nat.lt_trichotomy i j with h | h | h
  · exact absurd hi.1 (hj.2 i h)
  · exact h
  · exact absurd hj.1 (hi.2 j h)

section Scan
variable [DecidableEq α]

theorem search_le_length (pat : List α) : ∀ l : List α, search pat l ≤ l.length
  | [] => le_rfl
  | a :: l => by
    unfold search
    split_ifs
    · exact Nat.zero_le _
    · have := search_le_length pat l
      simp only [List.length_cons]; omega

/-- A scan that stops inside the list stops at the first occurrence. -/
theorem firstAt_search {pat : List α} (hp : pat ≠ []) :
    ∀ {l : List α}, Occurs pat l → FirstAt pat l (search pat l)
  | [], h => absurd h (not_occurs_nil hp)
  | a :: l, ⟨i, hi⟩ => by
    unfold search
    split_ifs with h0
    · exact ⟨h0, fun j hj => absurd hj (Nat.not_lt_zero j)⟩
    · obtain ⟨k, rfl⟩ : ∃ k, i = k + 1 :=
        Nat.exists_eq_succ_of_ne_zero fun h => h0 (by subst h; exact hi)
      obtain ⟨h1, h2⟩ := firstAt_search hp ⟨k, hi⟩
      refine ⟨h1, fun j hj => ?_⟩
      rcases j with _ | j
      · exact h0
      · exact h2 j (by omega)

theorem search_lt_iff {pat : List α} (hp : pat ≠ []) (l : List α) :
    search pat l < l.length ↔ Occurs pat l := by
  constructor
  · induction l with
    | nil => simp [search]
    | cons a l ih =>
      unfold search
      split_ifs with h0
      · exact fun _ => ⟨0, h0⟩
      · intro h
        obtain ⟨i, hi⟩ := ih (by simpa using h)
        exact ⟨i + 1, hi⟩
  · exact fun h => (firstAt_search hp h).1.lt_length hp

theorem search_eq_of_firstAt {pat l : List α} {i : ℕ} (hp : pat ≠ []) (h : FirstAt pat l i) :
    search pat l = i :=
  firstAt_unique (firstAt_search hp ⟨i, h.1⟩) h

end Scan

/-! ### A delimiter of two different symbols -/

theorem occursAt_pair {a b : α} {l : List α} {i : ℕ} :
    OccursAt [a, b] l i ↔ l[i]? = some a ∧ l[i + 1]? = some b := by
  unfold OccursAt
  constructor
  · rintro ⟨t, ht⟩
    have h0 : (l.drop i)[0]? = some a := by rw [← ht]; rfl
    have h1 : (l.drop i)[1]? = some b := by rw [← ht]; rfl
    rw [List.getElem?_drop] at h0 h1
    exact ⟨h0, h1⟩
  · rintro ⟨h0, h1⟩
    obtain ⟨hi, rfl⟩ := List.getElem?_eq_some_iff.mp h0
    obtain ⟨hi', rfl⟩ := List.getElem?_eq_some_iff.mp h1
    refine ⟨l.drop (i + 2), ?_⟩
    rw [List.drop_eq_getElem_cons hi, List.drop_eq_getElem_cons hi']
    rfl

/-- Before the end of `l`, the pair occurs in `l ++ a :: b :: r` exactly where it occurs in `l`:
its first symbol cannot be the last of `l`, because the symbol that follows is `a`, not `b`. -/
theorem occursAt_append_pair {a b : α} (hab : a ≠ b) {l r : List α} {i : ℕ} (hi : i < l.length) :
    OccursAt [a, b] (l ++ a :: b :: r) i ↔ OccursAt [a, b] l i := by
  rw [occursAt_pair, occursAt_pair, List.getElem?_append_left hi]
  rcases Nat.lt_or_ge (i + 1) l.length with h | h
  · rw [List.getElem?_append_left h]
  · have hl : l.length = i + 1 := by omega
    rw [List.getElem?_append_right h, List.getElem?_eq_none h, hl, Nat.sub_self]
    simp [hab]

theorem occurs_pair {a b : α} {l : List α} :
    Occurs [a, b] l ↔ ∃ i, l[i]? = some a ∧ l[i + 1]? = some b :=
  exists_congr fun _ => occursAt_pair

/-- The pair occurs in one of two parts, or across their border. -/
theorem occurs_pair_append {a b : α} {l r : List α} :
    Occurs [a, b] (l ++ r) ↔
      Occurs [a, b] l ∨ Occurs [a, b] r ∨ l.getLast? = some a ∧ r.head? = some b := by
  rw [occurs_pair, occurs_pair, occurs_pair, List.getLast?_eq_getElem?, List.head?_eq_getElem?]
  constructor
  · rintro ⟨i, h0, h1⟩
    rcases Nat.lt_trichotomy (i + 1) l.length with h | h | h
    · rw [List.getElem?_append_left (by omega)] at h0 h1
      exact Or.inl ⟨i, h0, h1⟩
    · rw [List.getElem?_append_left (by omega)] at h0
      rw [List.getElem?_append_right (by omega), h, Nat.sub_self] at h1
      refine Or.inr (Or.inr ⟨?_, h1⟩)
      rw [← h, Nat.add_sub_cancel]
      exact h0
    · rw [List.getElem?_append_right (by omega)] at h0 h1
      refine Or.inr (Or.inl ⟨i - l.length, h0, ?_⟩)
      rw [show i - l.length + 1 = i + 1 - l.length by omega]
      exact h1
  · rintro (⟨i, h0, h1⟩ | ⟨i, h0, h1⟩ | ⟨h0, h1⟩)
    · have hi := (List.getElem?_eq_some_iff.mp h1).1
      exact ⟨i, by rw [List.getElem?_append_left (by omega)]; exact h0, by
        rw [List.getElem?_append_left hi]; exact h1⟩
    · refine ⟨l.length + i, ?_, ?_⟩
      · rw [List.getElem?_append_right (by omega), Nat.add_sub_cancel_left]
        exact h0
      · rw [List.getElem?_append_right (by omega), show l.length + i + 1 - l.length = i + 1 by omega]
        exact h1
    · have hl := (List.getElem?_eq_some_iff.mp h0).1
      refine ⟨l.length - 1, ?_, ?_⟩
      · rw [List.getElem?_append_left hl]
        exact h0
      · rw [List.getElem?_append_right (by omega), show l.length - 1 + 1 - l.length = 0 by omega]
        exact h1

theorem not_occurs_pair_of_notMem {a b : α} {l : List α} (h : a ∉ l) : ¬ Occurs [a, b] l := by
  rw [occurs_pair]
  rintro ⟨i, h0, -⟩
  exact h (List.mem_of_getElem? h0)

/-- **A line ends at its delimiter.** -/
theorem firstAt_append_pair {a b : α} (hab : a ≠ b) {l : List α} (h : ¬ Occurs [a, b] l)
    (r : List α) : FirstAt [a, b] (l ++ a :: b :: r) l.length := by
  refine ⟨?_, fun j hj hocc => h ⟨j, (occursAt_append_pair hab hj).mp hocc⟩⟩
  rw [occursAt_pair]
  simp

end Chaining.Base.Search
