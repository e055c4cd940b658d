import Mathlib.Data.Nat.Size
import Chaining.Stream.Capacity

/-! # How far the buffer grows

A container is resized only when the readable bytes and the new ones do not fit behind the prepend
area, and then to the growth factor times its size, if that is enough. So it never becomes larger than
the factor times the most that was asked of it at once (`OpBelow`), however many bytes pass through;
and as a factor of at least two doubles it, what the resizes move is covered by what the container
has grown. -/

namespace Chaining.Stream.Growth

open Chaining.Base.Runs Chaining.Base.Window Chaining.Outcome
open Chaining.Stream.Defs Chaining.Stream.Cursors Chaining.Stream.Queue Chaining.Stream.Capacity

/-- The prepend area, the readable bytes and the new ones are `peak` bytes at most. -/
def OpBelow (peak : ℕ) (b : Buffer) : Op → Prop
  | .append s => b.easyPrependSpace + b.readableSize + s.length ≤ peak
  | .readFromFD (some data) => b.easyPrependSpace + b.readableSize + data.length ≤ peak
  | _ => True

/-- What a resize moves: the container there was. -/
def moved (b b' : Buffer) : ℕ := if b'.buff.size = b.buff.size then 0 else b.buff.size

/-- Whether the container was resized. -/
def resized (b b' : Buffer) : ℕ := if b'.buff.size = b.buff.size then 0 else 1

/-- **What a call does to the size**: nothing, or it at least doubles it, up to a limit. -/
def Sized (limit : ℕ) (b b' : Buffer) : Prop :=
  b'.buff.size = b.buff.size ∨ 2 * b.buff.size ≤ b'.buff.size ∧ b'.buff.size ≤ limit

variable {b b' : Buffer} {peak : ℕ}

theorem floor_mono {m n : ℕ} {ef : ℚ} (hef : 2 ≤ ef) (hmn : m ≤ n) :
    ⌊(m : ℚ) * ef⌋₊ ≤ ⌊(n : ℚ) * ef⌋₊ := by
  refine Nat.floor_mono (mul_le_mul_of_nonneg_right ?_ (by linarith))
  exact_mod_cast hmn

theorem two_mul_le_floor {ef : ℚ} (hef : 2 ≤ ef) (n : ℕ) : 2 * n ≤ ⌊(n : ℚ) * ef⌋₊ := by
  refine Nat.le_floor ?_
  have hn : (0 : ℚ) ≤ n := Nat.cast_nonneg n
  push_cast
  nlinarith

/-- The three branches of `ensureCapacity`. -/
theorem ensured_sized (h : Inv b) (hef : 2 ≤ b.expandFactor) {n : ℕ}
    (hpeak : b.easyPrependSpace + b.readableSize + n ≤ peak) :
    Sized ⌊(peak : ℚ) * b.expandFactor⌋₊ b (ensured b n) := by
  have h1 := h.prepend
  have h2 := h.readable_le
  have h3 := h.inside
  unfold ensured
  split_ifs with hdirect hreform
  · exact Or.inl rfl
  · exact Or.inl (size_compacted h)
  · have hsize : b.buff.size ≤ peak := by
      unfold Buffer.canWriteableTroughtReforming Buffer.canWriteableDirection at hreform
      omega
    have hpeak' := two_mul_le_floor hef peak
    have hdouble := two_mul_le_floor hef b.buff.size
    have hfloor := floor_mono hef hsize
    refine Or.inr ?_
    simp only [size_resize, factorExpand_compacted h]
    unfold Buffer.factorExpand
    omega

theorem append_sized (h : Inv b) (hef : 2 ≤ b.expandFactor) {s : List UInt8}
    (hpeak : b.easyPrependSpace + b.readableSize + s.length ≤ peak) (he : b.append s = .ok b') :
    Sized ⌊(peak : ℚ) * b.expandFactor⌋₊ b b' := by
  have hroom := (append_ok_iff h s).mp ⟨b', he⟩
  have hle := (ensured_room_iff h s.length).mpr hroom
  rw [append_eq h, if_pos hroom] at he
  cases he
  have hsize : (written (ensured b s.length) s).buff.size = (ensured b s.length).buff.size :=
    length_splice hle
  unfold Sized
  rw [hsize]
  exact ensured_sized h hef hpeak

/-- Only the `append` of what the static array took resizes. -/
theorem readFromFD_sized (h : Inv b) (hef : 2 ≤ b.expandFactor) {data : List UInt8} {n : ℤ}
    (hpeak : b.easyPrependSpace + b.readableSize + data.length ≤ peak)
    (he : b.readFromFD (some data) = .ok (b', n)) :
    Sized ⌊(peak : ℚ) * b.expandFactor⌋₊ b b' := by
  have htake := take_room_le h data
  rw [readFromFD_eq h] at he
  split_ifs at he with hover
  · have hi := (written_extends h htake).inv
    have hfull := written_full h hover
    have hsize : (written b (data.take b.canWriteableDirection)).buff.size = b.buff.size :=
      length_splice htake
    have hrest : (written b (data.take b.canWriteableDirection)).easyPrependSpace +
        (written b (data.take b.canWriteableDirection)).readableSize +
        (data.drop b.canWriteableDirection).length ≤ peak := by
      have h2 := h.readable_le
      have h3 := h.inside
      rw [Buffer.readableSize, hfull, List.length_drop]
      unfold Buffer.canWriteableDirection at *
      simp only [written]
      omega
    obtain ⟨c, hc, hcb⟩ := bind_eq_ok.mp he
    cases hcb
    have hsized := append_sized hi hef hrest hc
    unfold Sized at hsized ⊢
    rwa [hsize] at hsized
  · cases he
    have hle : b.writeStartPosition + data.length ≤ b.buff.size := by
      have h3 := h.inside
      unfold Buffer.canWriteableDirection at hover
      omega
    exact Or.inl (length_splice hle)

/-- **One call.** -/
theorem exec_sized (h : Inv b) (hef : 2 ≤ b.expandFactor) {op : Op} {a : Answer}
    (hadm : Admits b op) (hpeak : OpBelow peak b op) (he : exec b op = .ok (b', a)) :
    Sized ⌊(peak : ℚ) * b.expandFactor⌋₊ b b' := by
  cases op with
  | append s =>
    obtain ⟨c, hc, hcb⟩ := bind_eq_ok.mp he
    cases hcb
    exact append_sized h hef hpeak hc
  | readFromFD r =>
    cases r with
    | none =>
      cases he
      exact Or.inl rfl
    | some data =>
      obtain ⟨⟨c, n⟩, hc, hcb⟩ := bind_eq_ok.mp he
      cases hcb
      exact readFromFD_sized h hef hpeak hc
  | retrieve n | findCRLF | findCRLFDouble =>
    cases he
    exact Or.inl rfl
  | retrieveAsString n =>
    cases he
    refine Or.inl ?_
    unfold Buffer.retrieveAsString
    split_ifs <;> rfl
  | retrieveUtil k =>
    simp only [exec, retrieveUtil_eq h hadm, ok_bind] at he
    cases he
    exact Or.inl rfl
  | retrieveAsStringUtil k =>
    simp only [exec, retrieveAsStringUtil_eq h hadm, ok_bind] at he
    cases he
    exact Or.inl rfl

/-! ### Runs -/

/-- A number that is doubled has a binary digit more. -/
theorem size_lt_size {m n : ℕ} (hmn : 2 * m ≤ n) (hne : n ≠ m) : m.size < n.size := by
  rcases Nat.eq_zero_or_pos m with rfl | hm
  · rw [Nat.size_zero]
    exact Nat.size_pos.mpr (by omega)
  · obtain ⟨k, hk⟩ := Nat.exists_eq_succ_of_ne_zero (Nat.size_pos.mpr hm).ne'
    have hlow : 2 ^ k ≤ m := Nat.lt_size.mp (by omega)
    refine Nat.lt_size.mpr ?_
    rw [hk, Nat.pow_succ]
    omega

/-- The cost of a call is covered by what the container has grown. -/
theorem Sized.covered {limit : ℕ} (h : Sized limit b b') :
    moved b b' + b.buff.size ≤ b'.buff.size ∧
      resized b b' + b.buff.size.size ≤ b'.buff.size.size := by
  unfold moved resized
  split_ifs with hsame
  · rw [hsame]
    omega
  · obtain ⟨hdouble, -⟩ := h.resolve_left hsame
    have hlt := size_lt_size hdouble hsame
    omega

/-- What a run keeps. -/
structure Bounded (init pre : ℕ) (ef : ℚ) (peak : ℕ) (b : Buffer) : Prop where
  inv : Inv b
  prepend : b.easyPrependSpace = pre
  factor : b.expandFactor = ef
  size : b.buff.size ≤ max init ⌊(peak : ℚ) * ef⌋₊

theorem exec_bounded {init pre : ℕ} {ef : ℚ} (hef : 2 ≤ ef) (h : Bounded init pre ef peak b) {op : Op}
    {a : Answer} (hadm : Admits b op ∧ OpBelow peak b op) (he : exec b op = .ok (b', a)) :
    Bounded init pre ef peak b' ∧ Sized ⌊(peak : ℚ) * ef⌋₊ b b' := by
  have hk := (exec_refines h.inv hadm.1 he).1
  have hsized := exec_sized h.inv (h.factor ▸ hef) hadm.1 hadm.2 he
  rw [h.factor] at hsized
  refine ⟨⟨hk.inv, hk.prepend.trans h.prepend, hk.factor.trans h.factor, ?_⟩, hsized⟩
  rcases hsized with hsame | ⟨-, hle⟩
  · exact hsame ▸ h.size
  · exact hle.trans (le_max_right _ _)

/-- **How far the buffer grows**: in every run with a growth factor of at least two, the container is at
most as large as it was constructed or the factor times the peak demand; what its resizes move, all
together, is less than its size; and each resize adds a binary digit to that. -/
theorem growth_bounded (init : ℕ) {ef : ℚ} {pre : ℕ} (hpre : pre ≤ init) (hef : 2 ≤ ef) {ops : List Op}
    {answers : List Answer} (hadm : Along exec Admits (Buffer.new init ef pre) ops)
    (hpeak : Along exec (OpBelow peak) (Buffer.new init ef pre) ops)
    (hrun : Run exec (Buffer.new init ef pre) ops answers b) :
    b.buff.size ≤ max init ⌊(peak : ℚ) * ef⌋₊ ∧
      total exec moved (Buffer.new init ef pre) ops + init ≤ b.buff.size ∧
      total exec resized (Buffer.new init ef pre) ops + init.size ≤ b.buff.size.size := by
  have hsize : (Buffer.new init ef pre).buff.size = init := List.length_replicate
  have h0 : Bounded init pre ef peak (Buffer.new init ef pre) :=
    ⟨inv_new init ef pre hpre, rfl, rfl, hsize.le.trans (le_max_left _ _)⟩
  have hboth := along_and.mpr ⟨hadm, hpeak⟩
  obtain ⟨hb, hmoved⟩ := hrun.potential (c := moved) (f := fun b => b.buff.size)
    (fun _ _ _ _ hI hA he =>
      ⟨(exec_bounded hef hI hA he).1, (exec_bounded hef hI hA he).2.covered.1⟩) h0 hboth
  obtain ⟨-, hresized⟩ := hrun.potential (c := resized) (f := fun b => b.buff.size.size)
    (fun _ _ _ _ hI hA he =>
      ⟨(exec_bounded hef hI hA he).1, (exec_bounded hef hI hA he).2.covered.2⟩) h0 hboth
  rw [hsize] at hmoved hresized
  exact ⟨hb.size, hmoved, hresized⟩

/-- A container of four bytes that is full. -/
def filled : Buffer where
  buff := { cells := [0, 65, 66, 67], stores := [(1, 3)] }
  readStartPosition := 1
  writeStartPosition := 4
  easyPrependSpace := 1
  expandFactor := 2

/-- It is doubled for four more. -/
theorem growth_bounded_doubled :
    ∃ b, Run exec (Buffer.new 4 2 1) [.append [65, 66, 67], .append [68, 69, 70, 71]]
        [.none, .none] b ∧
      b.buff.size ≤ max 4 ⌊((8 : ℕ) : ℚ) * 2⌋₊ ∧
      total exec moved (Buffer.new 4 2 1) [.append [65, 66, 67], .append [68, 69, 70, 71]] + 4 ≤
        b.buff.size ∧
      total exec resized (Buffer.new 4 2 1) [.append [65, 66, 67], .append [68, 69, 70, 71]] +
        (4 : ℕ).size ≤ b.buff.size.size := by
  have hroom : Room filled 4 := Or.inr (Or.inl (two_mul_le_floor le_rfl 4))
  have hi : Inv filled := ⟨by decide, by decide, by decide⟩
  obtain ⟨b, hb⟩ := (append_ok_iff hi [68, 69, 70, 71]).mpr hroom
  have h1 : exec (Buffer.new 4 2 1) (.append [65, 66, 67]) = .ok (filled, .none) := rfl
  have h2 : exec filled (.append [68, 69, 70, 71]) = .ok (b, .none) := by
    simp only [exec, hb, ok_bind]
    rfl
  have hrun := Run.cons h1 (.cons h2 (.nil b))
  refine ⟨b, hrun, growth_bounded 4 (by decide) le_rfl ?_ ?_ hrun⟩
  · exact .cons trivial h1 (.cons trivial h2 trivial)
  · exact .cons (Nat.le_of_ble_eq_true rfl) h1 (.cons (Nat.le_of_ble_eq_true rfl) h2 trivial)

end Chaining.Stream.Growth
