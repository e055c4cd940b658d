import Chaining.Stream.Queue

/-! # When the stores stay inside the container

`ensureCapacity` is asked for `size` more bytes, and resizes the container to
`max(needed, buff.size * expandFactor)`. But `needed` is what is missing, not the size the container
must have; so the resize is enough only when the factor alone gives enough, or when the container was
empty. `Fits` is that condition, on the state before the call, and `stores_inside_iff` says that a
run keeps its stores inside the container exactly when every call that adds bytes meets it. -/

namespace Chaining.Stream.Capacity

open Chaining.Base.Runs Chaining.Base.Window Chaining.Outcome
open Chaining.Stream.Defs Chaining.Stream.Cursors Chaining.Stream.Queue

/-- **What a call owes**: no store outside the container, the invariant afterwards, and for an
`append` the room that `ensureCapacity` was asked for. -/
def Sound (b : Buffer) (op : Op) : Prop :=
  (∃ b' a, exec b op = .ok (b', a) ∧ Inv b') ∧
    ∀ s, op = .append s →
      ∃ b', b.ensureCapacity s.length = .ok b' ∧ s.length ≤ b'.canWriteableDirection

/-- The readable bytes and `n` more fit into the container the growth factor gives, or the container
is empty. -/
def Fits (b : Buffer) (n : ℕ) : Prop :=
  b.easyPrependSpace + b.readableSize + n ≤ ⌊(b.buff.size : ℚ) * b.expandFactor⌋₊ ∨ b.buff.size = 0

/-- The calls that add bytes fit. -/
def OpFits (b : Buffer) : Op → Prop
  | .append s => Fits b s.length
  | .readFromFD (some data) => Fits b data.length
  | _ => True

variable {b b' : Buffer}

theorem size_le_factorExpand (hef : 1 ≤ b.expandFactor) : b.buff.size ≤ b.factorExpand := by
  refine Nat.le_floor ?_
  calc (b.buff.size : ℚ) = b.buff.size * 1 := (mul_one _).symm
    _ ≤ b.buff.size * b.expandFactor := mul_le_mul_of_nonneg_left hef (Nat.cast_nonneg _)

/-- A factor of at least one covers the compaction too. -/
theorem room_iff_fits (hef : 1 ≤ b.expandFactor) (n : ℕ) : Room b n ↔ Fits b n := by
  have hle := size_le_factorExpand hef
  show _ ↔ b.easyPrependSpace + b.readableSize + n ≤ b.factorExpand ∨ b.buff.size = 0
  unfold Room
  omega

theorem ensured_capacity_iff (h : Inv b) (n : ℕ) :
    (∃ b', b.ensureCapacity n = .ok b' ∧ n ≤ b'.canWriteableDirection) ↔ Room b n := by
  have hroom := ensured_room_iff h n
  rw [ensureCapacity_eq h]
  constructor
  · rintro ⟨b', hb, hn⟩
    cases hb
    rw [← hroom]
    unfold Buffer.canWriteableDirection at hn
    rcases Nat.eq_zero_or_pos n with rfl | hpos
    · have hb : ensured b 0 = b := if_pos (Nat.zero_le _)
      rw [hb]
      exact h.inside
    · omega
  · intro hr
    have hle := hroom.mpr hr
    exact ⟨_, rfl, by unfold Buffer.canWriteableDirection; omega⟩

/-- **One call** is sound exactly when it fits. -/
theorem sound_iff (h : Inv b) (hef : 1 ≤ b.expandFactor) {op : Op} (hadm : Admits b op) :
    Sound b op ↔ OpFits b op := by
  have keep : ∀ b' a, exec b op = .ok (b', a) → Inv b' := fun _ _ he => (exec_refines h hadm he).1.inv
  have rest : ∀ r, exec b op = .ok r → (∀ s, op ≠ .append s) → Sound b op := fun r he hne =>
    ⟨⟨r.1, r.2, he, keep _ _ he⟩, fun s hs => absurd hs (hne s)⟩
  cases op with
  | append s =>
    show _ ↔ Fits b s.length
    rw [← room_iff_fits hef]
    constructor
    · rintro ⟨⟨b', a, he, -⟩, -⟩
      obtain ⟨c, hc, -⟩ := bind_eq_ok.mp he
      exact (append_ok_iff h s).mp ⟨c, hc⟩
    · intro hr
      obtain ⟨c, hc⟩ := (append_ok_iff h s).mpr hr
      have he : exec b (.append s) = .ok (c, .none) := by simp only [exec, hc, ok_bind]; rfl
      refine ⟨⟨c, .none, he, keep _ _ he⟩, fun s' hs => ?_⟩
      cases hs
      exact (ensured_capacity_iff h s.length).mpr hr
  | retrieve n => exact ⟨fun _ => trivial, fun _ => rest _ rfl (by simp)⟩
  | retrieveAsString n => exact ⟨fun _ => trivial, fun _ => rest _ rfl (by simp)⟩
  | retrieveUtil k =>
    refine ⟨fun _ => trivial, fun _ => rest (b.retrieve k, .none) ?_ (by simp)⟩
    simp only [exec, retrieveUtil_eq h hadm, ok_bind]
    rfl
  | retrieveAsStringUtil k =>
    refine ⟨fun _ => trivial, fun _ => rest (b.retrieve k, .str (window b.buff.cells b.peek k)) ?_
      (by simp)⟩
    simp only [exec, retrieveAsStringUtil_eq h hadm, ok_bind]
    rfl
  | findCRLF => exact ⟨fun _ => trivial, fun _ => rest _ rfl (by simp)⟩
  | findCRLFDouble => exact ⟨fun _ => trivial, fun _ => rest _ rfl (by simp)⟩
  | readFromFD r =>
    cases r with
    | none => exact ⟨fun _ => trivial, fun _ => rest _ rfl (by simp)⟩
    | some data =>
      show _ ↔ Fits b data.length
      rw [← room_iff_fits hef]
      constructor
      · rintro ⟨⟨b', a, he, -⟩, -⟩
        obtain ⟨c, hc, -⟩ := bind_eq_ok.mp he
        exact (readFromFD_ok_iff h data).mp ⟨c, hc⟩
      · intro hr
        obtain ⟨⟨c, n⟩, hc⟩ := (readFromFD_ok_iff h data).mpr hr
        have he : exec b (.readFromFD (some data)) = .ok (c, .count n) := by
          simp only [exec, hc, ok_bind]; rfl
        exact rest _ he (by simp)

/-- **The exact condition.** In a run from the constructor every store lands inside the container,
with the invariant after every call and the capacity that was asked for, if and only if every call
that adds `n` bytes is made when `Fits b n`. -/
theorem stores_inside_iff (init : ℕ) {ef : ℚ} {pre : ℕ} (hpre : pre ≤ init) (hef : 1 ≤ ef)
    {ops : List Op} (hadm : Along exec Admits (Buffer.new init ef pre) ops) :
    Along exec Sound (Buffer.new init ef pre) ops ↔
      Along exec OpFits (Buffer.new init ef pre) ops := by
  refine along_iff (I := fun b => Inv b ∧ 1 ≤ b.expandFactor)
    (fun b op hI hA => sound_iff hI.1 hI.2 hA) (fun b op b' a hI hA _ he => ?_)
    ⟨inv_new init ef pre hpre, hef⟩ hadm
  have hk := (exec_refines hI.1 hA he).1
  exact ⟨hk.inv, hk.factor ▸ hI.2⟩

/-- An append that takes the compaction, and a scattered read for which the container grows. -/
def scattered : List Op :=
  [.append [72, 84, 84], .retrieveAsString 2, .append [80, 47, 49, 46],
    .readFromFD (some [49, 32, 50, 48, 48, 32])]

/-- All of it fits. -/
theorem stores_inside_iff_scattered :
    (Along exec Sound (Buffer.new 8 2 2) scattered ↔ Along exec OpFits (Buffer.new 8 2 2) scattered) ∧
      Along exec OpFits (Buffer.new 8 2 2) scattered := by
  have hadm : Along exec Admits (Buffer.new 8 2 2) scattered :=
    .cons trivial rfl (.cons trivial rfl (.cons trivial rfl
      ⟨Nat.le_of_ble_eq_true rfl, fun _ _ _ => trivial⟩))
  have hdoubled : ∀ n ≤ 16, n ≤ ⌊((8 : ℕ) : ℚ) * 2⌋₊ := fun n hn =>
    hn.trans (Nat.le_floor (by norm_num))
  refine ⟨stores_inside_iff 8 (by decide) (by norm_num) hadm, ?_⟩
  exact .cons (Or.inl (hdoubled 5 (by decide))) rfl (.cons trivial rfl
    (.cons (Or.inl (hdoubled 7 (by decide))) rfl
      ⟨Or.inl (hdoubled 13 (by decide)), fun _ _ _ => trivial⟩))

/-- **The default buffer overflows**: 1985 bytes appended to a fresh one are stored up to index 2048
of a container of 2048 bytes. -/
theorem default_append_overflows :
    Along exec Admits (Buffer.new initBufferSize defaultExpandFactor defaultPrependSize)
        [.append (List.replicate 1985 0)] ∧
      exec (Buffer.new initBufferSize defaultExpandFactor defaultPrependSize)
        (.append (List.replicate 1985 0)) = .error .outOfBounds ∧
      ¬ Along exec Sound (Buffer.new initBufferSize defaultExpandFactor defaultPrependSize)
        [.append (List.replicate 1985 0)] := by
  have hI := inv_new initBufferSize defaultExpandFactor defaultPrependSize (by decide)
  have hroom : ¬ Room (Buffer.new initBufferSize defaultExpandFactor defaultPrependSize) 1985 := by
    have hf : ⌊((1024 : ℕ) : ℚ) * 2⌋₊ = 2048 := by norm_num
    simp only [Room, Buffer.new, Buffer.readableSize, Buffer.factorExpand, ContentContainer.size,
      List.length_replicate, initBufferSize, defaultPrependSize, defaultExpandFactor, hf]
    omega
  have herr : exec (Buffer.new initBufferSize defaultExpandFactor defaultPrependSize)
      (.append (List.replicate 1985 0)) = .error .outOfBounds := by
    simp only [exec, append_eq hI, List.length_replicate, if_neg hroom, error_bind]
  refine ⟨⟨trivial, fun _ _ _ => trivial⟩, herr, ?_⟩
  rintro ⟨⟨⟨b', a, he, -⟩, -⟩, -⟩
  rw [herr] at he
  cases he

end Chaining.Stream.Capacity
