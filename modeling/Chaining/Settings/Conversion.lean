import Chaining.Settings.Units
import Mathlib.Algebra.Ring.Int.Defs
import Mathlib.Algebra.Ring.Nat

/-! # Which capacities are converted

The conversion refuses a number by a test for `-1`, the value of a failed system call; `strtol` has no
such value. So of the numbers that are out of range it refuses `-1` alone: other negative ones become
huge, too large ones are clamped, and a product that does not fit is wrapped, to zero at worst.
`refuses_iff` gives the exact condition, and `converts` says that what is in range is converted
exactly. -/

namespace Chaining.Settings.Conversion

open Chaining.Http.Response (Bytes bytes)
open Chaining.Net.Inet (isdigit Decimal)
open Chaining.Settings.Units

/-- **What is owed for a number and the factor of its unit**: a negative number, one that no `long`
holds and one whose product no `size_t` holds are refused, and whatever is returned is the product. -/
structure Refuses (v : ℤ) (f : ℕ) (r : Except Thrown ℕ) : Prop where
  refused : v < 0 ∨ LONG_MAX < v ∨ 2 ^ 64 ≤ v * f → ∃ e, r = .error e
  exact : ∀ x, r = .ok x → (x : ℤ) = v * f

/-- **The condition**: the number is in range, or is `-1`. -/
def Fits (v : ℤ) (f : ℕ) : Prop := v = -1 ∨ 0 ≤ v ∧ v ≤ LONG_MAX ∧ v * f < 2 ^ 64

variable {v : ℤ}

/-- A number that is in range is not clamped, and its product not wrapped. -/
theorem product_eq (unit : Bytes) (h0 : 0 ≤ v) (hmax : v ≤ LONG_MAX) (hfit : v * factor unit < 2 ^ 64) :
    (sizeMul (toSize (clamp v)) (factor unit) : ℤ) = v * factor unit := by
  unfold sizeMul toSize clamp LONG_MIN LONG_MAX at *
  rcases factor_cases unit with hf | hf | hf | hf <;> rw [hf] at hfit ⊢ <;> omega

theorem clamp_eq_neg_one_iff : clamp v = -1 ↔ v = -1 := by
  unfold clamp LONG_MIN LONG_MAX
  omega

variable (strerror : ℤ → Option Bytes) (errno : ℤ)

/-- A number that is not refused is converted, to the product exactly if it is in range. -/
theorem refuses_of_reads_iff {text unit : Bytes} (h : Reads text v unit) :
    Refuses v (factor unit) (GetUnitConversionValue strerror errno text) ↔ Fits v (factor unit) := by
  rw [conversion_eq strerror errno h]
  unfold Fits
  by_cases hone : v = -1
  · rw [if_pos (clamp_eq_neg_one_iff.mpr hone)]
    exact iff_of_true ⟨fun _ => ⟨_, rfl⟩, fun x hx => by cases hx⟩ (Or.inl hone)
  · rw [if_neg (mt clamp_eq_neg_one_iff.mp hone)]
    constructor
    · intro hr
      -- Nothing is thrown, so that the number is in none of the three cases.
      have hin : ¬ (v < 0 ∨ LONG_MAX < v ∨ 2 ^ 64 ≤ v * factor unit) := fun hout => by
        obtain ⟨e, he⟩ := hr.refused hout
        cases he
      simp only [not_or, Int.not_lt, Int.not_le] at hin
      exact Or.inr hin
    · rintro (hv | ⟨h0, hmax, hfit⟩)
      · exact absurd hv hone
      · refine ⟨fun hout => ?_, fun x hx => ?_⟩
        · omega
        · cases hx
          exact product_eq unit h0 hmax hfit

/-- **When a capacity that is out of range is refused**: if there is a number, exactly if it is `-1`
or in range; without a number nothing is refused, the value is zero, and for the empty text one
megabyte. -/
theorem refuses_iff (text : Bytes) :
    (∀ v unit, Reads text v unit →
      (Refuses v (factor unit) (GetUnitConversionValue strerror errno text) ↔
        Fits v (factor unit))) ∧
      ((¬ ∃ v unit, Reads text v unit) → GetUnitConversionValue strerror errno text =
        .ok (if text = [] then 1048576 else 0)) := by
  refine ⟨fun v unit h => refuses_of_reads_iff strerror errno h, fun h => ?_⟩
  by_cases hnil : text = []
  · rw [hnil]
    exact conversion_nil strerror errno
  · rw [if_neg hnil]
    exact conversion_of_not_reads strerror errno hnil h

/-- `GB` begins with no digit. -/
theorem head_GB : ∀ c ∈ (bytes "GB").head?, isdigit c = false := by
  intro c hc
  cases hc
  rfl

/-- A negative number. -/
theorem refuses_iff_sample :
    (Refuses (-2) (factor (bytes "GB"))
        (GetUnitConversionValue (fun _ => none) 0 (bytes "-2GB")) ↔ Fits (-2) (factor (bytes "GB"))) ∧
      ¬ Fits (-2) (factor (bytes "GB")) := by
  have hreads : Reads (bytes "-2GB") (-2) (bytes "GB") :=
    @Reads.intro [] [45] [50] (bytes "GB") 2 (by simp) (by simp) ⟨by decide, by decide, by decide⟩
      head_GB
  exact ⟨(refuses_iff (fun _ => none) 0 (bytes "-2GB")).1 _ _ hreads, by unfold Fits; decide⟩

/-- **A capacity of 2 ^ 64 bytes is zero.** -/
theorem huge_capacity_zero :
    Reads (bytes "17179869184GB") 17179869184 (bytes "GB") ∧
      17179869184 * factor (bytes "GB") = 2 ^ 64 ∧
      GetUnitConversionValue (fun _ => none) 0 (bytes "17179869184GB") = .ok 0 ∧
      ¬ Refuses 17179869184 (factor (bytes "GB"))
        (GetUnitConversionValue (fun _ => none) 0 (bytes "17179869184GB")) := by
  have hzero : GetUnitConversionValue (fun _ => none) 0 (bytes "17179869184GB") = .ok 0 := rfl
  refine ⟨?_, by decide, hzero, fun h => ?_⟩
  · exact @Reads.intro [] [] (bytes "17179869184") (bytes "GB") 17179869184 (by simp) (by simp)
      ⟨by decide, by decide, by decide⟩ head_GB
  · obtain ⟨e, he⟩ := h.refused (Or.inr (Or.inr (by decide)))
    rw [hzero] at he
    cases he

/-- **What is in range is converted exactly**, whatever follows the digits. -/
theorem converts {d u : Bytes} {n : ℕ} (hd : Decimal d n) (hu : ∀ c ∈ u.head?, isdigit c = false)
    (hn : n ≤ 2 ^ 63 - 1) (hfit : n * factor u < 2 ^ 64) :
    GetUnitConversionValue strerror errno (d ++ u) = .ok (n * factor u) := by
  have hreads : Reads (d ++ u) n u :=
    @Reads.intro [] [] d u n (by simp) (Or.inl rfl) hd hu
  have hone : ((n : ℕ) : ℤ) ≠ -1 := by omega
  rw [conversion_eq strerror errno hreads, if_neg (mt clamp_eq_neg_one_iff.mp hone)]
  have hproduct := product_eq (v := n) u (by omega) (by unfold LONG_MAX; omega) (by exact_mod_cast hfit)
  exact congrArg Except.ok (by exact_mod_cast hproduct)

theorem converts_gigabytes :
    GetUnitConversionValue (fun _ => none) 0 (bytes "012" ++ bytes "GB") =
      .ok (12 * factor (bytes "GB")) :=
  converts (fun _ => none) 0 ⟨by decide, by decide, by decide⟩ head_GB (by decide) (by decide)

end Chaining.Settings.Conversion
