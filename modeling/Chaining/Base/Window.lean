import Mathlib.Data.List.TakeDrop
import Mathlib.Tactic.Common

/-! # Stores into a block of cells, and the windows they leave alone

A block of memory is the list of its cells. `splice l i s` stores `s` from index `i` on, `window l i
n` reads the `n` cells from index `i` on. A store inside the block keeps its size (`length_splice`);
a window below it is unchanged (`window_splice_below`), the window it fills is what was stored
(`window_splice_self`), and a window that ends where the store begins grows by what was stored
(`window_splice_append`). -/

namespace Chaining.Base.Window

variable {α : Type*}

/-- The cells `i, …, i + n - 1`. -/
def window (l : List α) (i n : ℕ) : List α := (l.drop i).take n

/-- The block after `s` is stored at index `i`. -/
def splice (l : List α) (i : ℕ) (s : List α) : List α := l.take i ++ s ++ l.drop (i + s.length)

theorem length_window {l : List α} {i n : ℕ} (h : i + n ≤ l.length) : (window l i n).length = n := by
  unfold window
  rw [List.length_take, List.length_drop]
  omega

theorem length_splice {l : List α} {i : ℕ} {s : List α} (h : i + s.length ≤ l.length) :
    (splice l i s).length = l.length := by
  unfold splice
  simp only [List.length_append, List.length_take, List.length_drop]
  omega

theorem window_zero (l : List α) (i : ℕ) : window l i 0 = [] := by simp [window]

/-- Reading a window in two pieces. -/
theorem window_add (l : List α) (i m n : ℕ) :
    window l i (m + n) = window l i m ++ window l (i + m) n := by
  unfold window
  rw [List.take_add, List.drop_drop]

theorem window_append_left {l r : List α} {i n : ℕ} (h : i + n ≤ l.length) :
    window (l ++ r) i n = window l i n := by
  unfold window
  rw [List.drop_append_of_le_length (by omega), List.take_append_of_le_length]
  rw [List.length_drop]; omega

theorem window_take {l : List α} {i n m : ℕ} (h : i + n ≤ m) : window (l.take m) i n = window l i n := by
  unfold window
  rw [List.drop_take, List.take_take, Nat.min_eq_left (by omega)]

/-- A window below the store is unchanged. -/
theorem window_splice_below {l : List α} {i j n : ℕ} {s : List α} (h : j + n ≤ i)
    (hi : i ≤ l.length) : window (splice l i s) j n = window l j n := by
  unfold splice
  rw [List.append_assoc, window_append_left (by rw [List.length_take]; omega), window_take h]

/-- The window a store fills. -/
theorem window_splice_self {l : List α} {i : ℕ} {s : List α} (hi : i ≤ l.length) :
    window (splice l i s) i s.length = s := by
  have hl : (l.take i).length = i := by rw [List.length_take]; omega
  unfold window splice
  rw [List.append_assoc, List.drop_append_of_le_length (by omega), List.drop_of_length_le (by omega)]
  simp

/-- A window that ends where the store begins grows by what is stored. -/
theorem window_splice_append {l : List α} {i j n : ℕ} {s : List α} (h : j + n = i)
    (hi : i ≤ l.length) : window (splice l i s) j (n + s.length) = window l j n ++ s := by
  rw [window_add, window_splice_below (by omega) hi, h, window_splice_self hi]

end Chaining.Base.Window
