import Chaining.Stream.Queue

/-! # A buffer whose content fits does not grow

The read cursor only moves forward, and the free space is at both ends of the container. As long as
the readable bytes and the new ones fit behind the prepend area, one of the first two branches of
`ensureCapacity` is taken: there is room behind the readable bytes, or there is after a compaction.
`Stays` is what such a call does to the container, and `keepsSize` says that over a whole run the
container keeps its size and every store lands inside it, however many bytes pass through. -/

namespace Chaining.Stream.Steady

open Chaining.Base.Runs Chaining.Base.Window Chaining.Outcome
open Chaining.Stream.Defs Chaining.Stream.Cursors Chaining.Stream.Queue

/-- The calls that add bytes find the readable bytes and the new ones within what the container
holds behind the prepend area. -/
def OpSmall (initContainerSize prependSize : ℕ) (b : Buffer) : Op → Prop
  | .append s => b.readableSize + s.length ≤ initContainerSize - prependSize
  | .readFromFD (some data) => b.readableSize + data.length ≤ initContainerSize - prependSize
  | _ => True

/-- The container has the size it was constructed with, every store so far was inside it, and there
is the prepend area in front of the readable bytes. -/
structure Snug (initContainerSize prependSize : ℕ) (b : Buffer) : Prop where
  size : b.buff.size = initContainerSize
  stores : ∀ st ∈ b.buff.stores, st.1 + st.2 ≤ initContainerSize
  prependable : prependSize ≤ b.prependableSize

/-- **What a call owes**: no store outside the container, and the container as it was. -/
def KeepsSize (initContainerSize prependSize : ℕ) (b : Buffer) (op : Op) : Prop :=
  Snug initContainerSize prependSize b ∧
    ∃ b' a, exec b op = .ok (b', a) ∧ Snug initContainerSize prependSize b'

/-- The container keeps its size, and the new stores are inside it. -/
structure Stays (b b' : Buffer) : Prop where
  size : b'.buff.size = b.buff.size
  stores : ∀ st ∈ b'.buff.stores, st ∈ b.buff.stores ∨ st.1 + st.2 ≤ b.buff.size

variable {b b' : Buffer}

theorem Stays.refl (b : Buffer) : Stays b b := ⟨rfl, fun _ hst => Or.inl hst⟩

theorem Stays.trans {b'' : Buffer} (h : Stays b b') (h' : Stays b' b'') : Stays b b'' := by
  refine ⟨h'.size.trans h.size, fun st hst => ?_⟩
  rcases h'.stores st hst with hst | hle
  · exact h.stores st hst
  · exact Or.inr (h.size ▸ hle)

/-- Retrieving moves the read cursor and stores nothing. -/
theorem stays_retrieve (b : Buffer) (n : ℕ) : Stays b (b.retrieve n) := ⟨rfl, fun _ hst => Or.inl hst⟩

/-! ### The functions that store -/

theorem stays_compacted (h : Inv b) : Stays b (compacted b) := by
  refine ⟨size_compacted h, fun st hst => ?_⟩
  rcases List.mem_append.mp hst with hst | hst
  · exact Or.inl hst
  · rw [List.mem_singleton.mp hst]
    exact Or.inr h.prepend_add_content_le

theorem stays_written {s : List UInt8} (hle : b.writeStartPosition + s.length ≤ b.buff.size) :
    Stays b (written b s) := by
  refine ⟨length_splice hle, fun st hst => ?_⟩
  rcases List.mem_append.mp hst with hst | hst
  · exact Or.inl hst
  · rw [List.mem_singleton.mp hst]
    exact Or.inr hle

/-- **The growing branch is not taken** when the bytes fit behind the prepend area: whatever the
cursors are, the room at the two ends together is enough. -/
theorem stays_ensured (h : Inv b) {n : ℕ}
    (hfit : b.easyPrependSpace + b.readableSize + n ≤ b.buff.size) : Stays b (ensured b n) := by
  have h1 := h.readable_le
  have h2 := h.inside
  have hreform : n ≤ b.canWriteableTroughtReforming := by
    unfold Buffer.canWriteableTroughtReforming Buffer.canWriteableDirection
    omega
  unfold ensured
  split_ifs
  · exact .refl b
  · exact stays_compacted h

theorem append_stays (h : Inv b) {s : List UInt8}
    (hfit : b.easyPrependSpace + b.readableSize + s.length ≤ b.buff.size) :
    ∃ b', b.append s = .ok b' ∧ Stays b b' := by
  have hroom : Room b s.length := Or.inl hfit
  have hle := (ensured_room_iff h s.length).mpr hroom
  refine ⟨written (ensured b s.length) s, ?_, (stays_ensured h hfit).trans (stays_written hle)⟩
  rw [append_eq h, if_pos hroom]

/-- **The overflow branch** puts the write cursor at the end of the container, and what is left to
append still fits behind the prepend area, so that a compaction makes room for it. -/
theorem readFromFD_stays (h : Inv b) {data : List UInt8}
    (hfit : b.easyPrependSpace + b.readableSize + data.length ≤ b.buff.size) :
    ∃ b' n, b.readFromFD (some data) = .ok (b', n) ∧ Stays b b' := by
  have hr := h.readable_le
  have hw := stays_written (take_room_le h data)
  rw [readFromFD_eq h]
  split_ifs with hover
  · have hi := (written_extends h (take_room_le h data)).inv
    have hrest : (written b (data.take b.canWriteableDirection)).easyPrependSpace +
        (written b (data.take b.canWriteableDirection)).readableSize +
        (data.drop b.canWriteableDirection).length ≤
          (written b (data.take b.canWriteableDirection)).buff.size := by
      have hfull := written_full h hover
      rw [hw.size, Buffer.readableSize, hfull, List.length_drop]
      unfold Buffer.canWriteableDirection at *
      simp only [written]
      omega
    obtain ⟨b', hb, hs⟩ := append_stays hi hrest
    exact ⟨b', data.length, by rw [hb]; rfl, hw.trans hs⟩
  · have hle : b.writeStartPosition + data.length ≤ b.buff.size := by
      have := h.inside
      unfold Buffer.canWriteableDirection at hover
      omega
    exact ⟨_, _, rfl, stays_written hle⟩

/-! ### Runs -/

/-- What the run keeps: the cursors in order, and the container as it was constructed. -/
structure Held (initContainerSize prependSize : ℕ) (b : Buffer) : Prop where
  inv : Inv b
  prepend : b.easyPrependSpace = prependSize
  snug : Snug initContainerSize prependSize b

theorem held_new (init : ℕ) (ef : ℚ) {pre : ℕ} (h : pre ≤ init) :
    Held init pre (Buffer.new init ef pre) := by
  refine ⟨inv_new init ef pre h, rfl, ?_, fun st hst => absurd hst List.not_mem_nil, le_rfl⟩
  exact List.length_replicate

/-- A call that succeeds and leaves the container as it was. -/
theorem exec_stays {init pre : ℕ} (h : Held init pre b) {op : Op} (hadm : Admits b op)
    (hsmall : OpSmall init pre b op) : ∃ b' a, exec b op = .ok (b', a) ∧ Stays b b' := by
  have hsize := h.snug.size
  have hfit : ∀ n, b.readableSize + n ≤ init - pre →
      b.easyPrependSpace + b.readableSize + n ≤ b.buff.size := by
    have h1 := h.inv.prepend
    have h2 := h.inv.order
    have h3 := h.inv.inside
    have h4 := h.prepend
    omega
  cases op with
  | append s =>
    obtain ⟨b', hb, hs⟩ := append_stays h.inv (hfit s.length hsmall)
    exact ⟨b', .none, by simp only [exec, hb, ok_bind]; rfl, hs⟩
  | readFromFD r =>
    cases r with
    | none => exact ⟨b, .count (-1), rfl, .refl b⟩
    | some data =>
      obtain ⟨b', n, hb, hs⟩ := readFromFD_stays h.inv (hfit data.length hsmall)
      exact ⟨b', .count n, by simp only [exec, hb, ok_bind]; rfl, hs⟩
  | retrieve n => exact ⟨b.retrieve n, .none, rfl, stays_retrieve b n⟩
  | retrieveAsString n =>
    refine ⟨_, _, rfl, ?_⟩
    unfold Buffer.retrieveAsString
    split_ifs
    · exact .refl b
    · exact stays_retrieve b n
  | retrieveUtil k =>
    refine ⟨b.retrieve k, .none, ?_, stays_retrieve b k⟩
    simp only [exec, retrieveUtil_eq h.inv hadm, ok_bind]
    rfl
  | retrieveAsStringUtil k =>
    refine ⟨b.retrieve k, .str (window b.buff.cells b.peek k), ?_, stays_retrieve b k⟩
    simp only [exec, retrieveAsStringUtil_eq h.inv hadm, ok_bind]
    rfl
  | findCRLF => exact ⟨_, _, rfl, .refl b⟩
  | findCRLFDouble => exact ⟨_, _, rfl, .refl b⟩

theorem held_of_stays {init pre : ℕ} (h : Held init pre b) (hs : Stays b b') (hk : Kept b b') :
    Held init pre b' := by
  have hpre : b'.easyPrependSpace = pre := hk.prepend.trans h.prepend
  refine ⟨hk.inv, hpre, hs.size.trans h.snug.size, fun st hst => ?_, hpre ▸ hk.inv.prepend⟩
  rcases hs.stores st hst with hst | hle
  · exact h.snug.stores st hst
  · exact h.snug.size ▸ hle

theorem held_exec {init pre : ℕ} (h : Held init pre b) {op : Op} {a : Answer} (hadm : Admits b op)
    (hsmall : OpSmall init pre b op) (he : exec b op = .ok (b', a)) : Held init pre b' := by
  obtain ⟨c, a', hc, hs⟩ := exec_stays h hadm hsmall
  cases hc.symm.trans he
  exact held_of_stays h hs (exec_refines h.inv hadm he).1

/-- **A buffer whose content fits does not grow**: in every run whose calls add no more than fits
behind the prepend area, the container keeps the size it was constructed with, every store lands
inside it, and the prepend area stays in front of the readable bytes. -/
theorem keepsSize (init : ℕ) (ef : ℚ) {pre : ℕ} (hpre : pre ≤ init) {ops : List Op}
    (hadm : Along exec Admits (Buffer.new init ef pre) ops)
    (hsmall : Along exec (OpSmall init pre) (Buffer.new init ef pre) ops) :
    Along exec (KeepsSize init pre) (Buffer.new init ef pre) ops := by
  refine Along.of_invariant (I := Held init pre)
    (A := fun b op => Admits b op ∧ OpSmall init pre b op) ?_ ?_ (held_new init ef hpre)
    (along_and.mpr ⟨hadm, hsmall⟩)
  · intro b op h hA
    obtain ⟨b', a, he, -⟩ := exec_stays h hA.1 hA.2
    exact ⟨h.snug, b', a, he, (held_exec h hA.1 hA.2 he).snug⟩
  · intro b op b' a h hA he
    exact held_exec h hA.1 hA.2 he

/-- Three bytes of content at most, over a scattered read that takes the compaction. -/
theorem keepsSize_scattered :
    Along exec (KeepsSize 4 1) (Buffer.new 4 2 1)
      [.append [65, 66], .retrieve 1, .readFromFD (some [67, 68]), .retrieveAsString 3] := by
  refine keepsSize 4 2 (by decide) ?_ ?_
  · refine ⟨trivial, fun b a h => ?_⟩
    cases h
    refine ⟨Nat.le_of_ble_eq_true rfl, fun b a h => ?_⟩
    cases h
    refine ⟨Nat.le_of_ble_eq_true rfl, fun b a h => ?_⟩
    cases h
    exact ⟨trivial, fun _ _ _ => trivial⟩
  · refine ⟨Nat.le_of_ble_eq_true rfl, fun b a h => ?_⟩
    cases h
    refine ⟨trivial, fun b a h => ?_⟩
    cases h
    refine ⟨Nat.le_of_ble_eq_true rfl, fun b a h => ?_⟩
    cases h
    exact ⟨trivial, fun _ _ _ => trivial⟩

end Chaining.Stream.Steady
