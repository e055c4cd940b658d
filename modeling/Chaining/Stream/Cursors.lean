import Chaining.Stream.Defs
import Mathlib.Tactic.Linarith

/-! # The cursors of the buffer

`Inv` is the picture of `Stream.Defs`: the cursors in order, inside the container. Under it
`reformingBuffer` and `ensureCapacity` never fault, and what they leave is known: `compacted` and
`ensured`. Whether the store that follows fits is a question about the state before the call, `Room`
(`ensured_room_iff`, `append_ok_iff`); when it does, the readable bytes are the old ones followed by
the new (`append_extends`, `readFromFD_extends`). -/

namespace Chaining.Stream.Cursors

open Chaining.Base.Window Chaining.Outcome Chaining.Stream.Defs

/-- **The representation invariant.** -/
structure Inv (b : Buffer) : Prop where
  prepend : b.easyPrependSpace ≤ b.readStartPosition
  order : b.readStartPosition ≤ b.writeStartPosition
  inside : b.writeStartPosition ≤ b.buff.size

/-- The bytes from `Peek` on. -/
def content (b : Buffer) : List UInt8 := window b.buff.cells b.peek b.readableSize

/-- No store so far has touched the prepend area. -/
def Guarded (b : Buffer) : Prop := ∀ st ∈ b.buff.stores, b.easyPrependSpace ≤ st.1

/-- `n` more bytes fit: behind the readable ones after a compaction, or into the container that the
growth factor gives, or because the container is empty and is resized to what is needed. -/
def Room (b : Buffer) (n : ℕ) : Prop :=
  b.easyPrependSpace + b.readableSize + n ≤ b.buff.size ∨
    b.easyPrependSpace + b.readableSize + n ≤ b.factorExpand ∨ b.buff.size = 0

instance (b : Buffer) (n : ℕ) : Decidable (Room b n) := by
  unfold Room; infer_instance

variable {b : Buffer}

theorem inv_new (init : ℕ) (ef : ℚ) (pre : ℕ) (h : pre ≤ init) : Inv (Buffer.new init ef pre) :=
  ⟨le_rfl, le_rfl, by simpa [Buffer.new, ContentContainer.size] using h⟩

theorem content_new (init : ℕ) (ef : ℚ) (pre : ℕ) : content (Buffer.new init ef pre) = [] := by
  simp [content, Buffer.new, Buffer.readableSize, window_zero]

theorem Inv.readable_le (h : Inv b) : b.readStartPosition + b.readableSize = b.writeStartPosition := by
  have := h.order
  unfold Buffer.readableSize; omega

theorem Inv.length_content (h : Inv b) : (content b).length = b.readableSize :=
  length_window (by have := h.inside; have := h.readable_le; unfold Buffer.peek; exact this ▸ h.inside)

theorem Inv.retrieve (h : Inv b) {n : ℕ} (hn : n ≤ b.readableSize) : Inv (b.retrieve n) := by
  have hr := h.readable_le
  exact ⟨Nat.le_add_right_of_le h.prepend, by simp only [Buffer.retrieve]; omega, h.inside⟩

theorem content_retrieve {n : ℕ} (hn : n ≤ b.readableSize) :
    content b = window b.buff.cells b.peek n ++ content (b.retrieve n) := by
  have hs : b.readableSize = n + (b.retrieve n).readableSize := by
    unfold Buffer.readableSize Buffer.retrieve at *; dsimp only; omega
  unfold content
  rw [hs, window_add]
  rfl

/-! ### Stores -/

theorem store_of_le {v : ContentContainer} {i : ℕ} {s : List UInt8} (h : i + s.length ≤ v.size) :
    v.store i s = .ok { cells := splice v.cells i s, stores := v.stores ++ [(i, s.length)] } := by
  unfold ContentContainer.store
  rw [if_pos h]

theorem store_of_not_le {v : ContentContainer} {i : ℕ} {s : List UInt8} (h : ¬ i + s.length ≤ v.size) :
    v.store i s = .error .outOfBounds := by
  unfold ContentContainer.store
  rw [if_neg h]

theorem size_resize (v : ContentContainer) (n : ℕ) : (v.resize n).size = n := by
  unfold ContentContainer.resize ContentContainer.size
  simp only [List.length_append, List.length_take, List.length_replicate]
  omega

/-- A window that survives the cut is not changed by a resize. -/
theorem window_resize {v : ContentContainer} {n i m : ℕ} (h : i + m ≤ n) (hv : i + m ≤ v.size) :
    window (v.resize n).cells i m = window v.cells i m := by
  unfold ContentContainer.resize
  rw [window_append_left, window_take h]
  rw [List.length_take]
  exact le_min h hv

/-! ### Compaction -/

/-- What `reformingBuffer` leaves. -/
def compacted (b : Buffer) : Buffer :=
  { b with
    buff := {
      cells := splice b.buff.cells b.easyPrependSpace (content b)
      stores := b.buff.stores ++ [(b.easyPrependSpace, (content b).length)] }
    readStartPosition := b.easyPrependSpace
    writeStartPosition := b.easyPrependSpace + b.readableSize }

theorem Inv.prepend_add_content_le (h : Inv b) :
    b.easyPrependSpace + (content b).length ≤ b.buff.size := by
  have h1 := h.prepend
  have h2 := h.readable_le
  have h3 := h.inside
  rw [h.length_content]; omega

theorem reformingBuffer_eq (h : Inv b) : b.reformingBuffer = .ok (compacted b) := by
  unfold Buffer.reformingBuffer
  have hs : b.buff.store b.easyPrependSpace (window b.buff.cells b.readStartPosition b.readableSize) =
      .ok (compacted b).buff := store_of_le h.prepend_add_content_le
  simp only [hs, ok_bind]
  rfl

theorem readableSize_compacted (b : Buffer) : (compacted b).readableSize = b.readableSize := by
  simp [compacted, Buffer.readableSize]

theorem size_compacted (h : Inv b) : (compacted b).buff.size = b.buff.size :=
  length_splice h.prepend_add_content_le

theorem inv_compacted (h : Inv b) : Inv (compacted b) := by
  refine ⟨le_rfl, Nat.le_add_right _ _, ?_⟩
  rw [size_compacted h]
  have := h.prepend_add_content_le
  rwa [h.length_content] at this

theorem content_compacted (h : Inv b) : content (compacted b) = content b := by
  have hle : b.easyPrependSpace ≤ b.buff.cells.length := by
    have := h.prepend_add_content_le
    unfold ContentContainer.size at this; omega
  have hs : (compacted b).readableSize = (content b).length := by
    rw [readableSize_compacted, h.length_content]
  rw [content, hs]
  exact window_splice_self hle

theorem guarded_compacted (h : Guarded b) : Guarded (compacted b) := by
  intro st hst
  rcases List.mem_append.mp hst with hst | hst
  · exact h st hst
  · rw [List.mem_singleton.mp hst]
    exact le_rfl

/-! ### Capacity -/

/-- What `ensureCapacity` leaves: the buffer as it is, compacted, or compacted and resized. -/
def ensured (b : Buffer) (n : ℕ) : Buffer :=
  if n ≤ b.canWriteableDirection then b
  else if n ≤ b.canWriteableTroughtReforming then compacted b
  else { compacted b with
    buff := (compacted b).buff.resize
      (max (n - (compacted b).canWriteableDirection) (compacted b).factorExpand) }

theorem ensureCapacity_eq (h : Inv b) (n : ℕ) : b.ensureCapacity n = .ok (ensured b n) := by
  unfold Buffer.ensureCapacity ensured
  simp only [reformingBuffer_eq h, ge_iff_le, ok_bind]
  split_ifs <;> rfl

theorem factorExpand_compacted (h : Inv b) : (compacted b).factorExpand = b.factorExpand := by
  unfold Buffer.factorExpand
  rw [size_compacted h]
  rfl

/-- What every outcome of `ensureCapacity` has in common with the buffer before. -/
theorem ensured_frame (h : Inv b) (n : ℕ) :
    (ensured b n).easyPrependSpace = b.easyPrependSpace ∧
      (ensured b n).expandFactor = b.expandFactor ∧
      (ensured b n).readableSize = b.readableSize ∧
      b.easyPrependSpace ≤ (ensured b n).readStartPosition ∧
      (ensured b n).readStartPosition ≤ (ensured b n).writeStartPosition := by
  unfold ensured
  split_ifs
  · exact ⟨rfl, rfl, rfl, h.prepend, h.order⟩
  · exact ⟨rfl, rfl, readableSize_compacted b, le_rfl, Nat.le_add_right _ _⟩
  · exact ⟨rfl, rfl, readableSize_compacted b, le_rfl, Nat.le_add_right _ _⟩

theorem guarded_ensured (hg : Guarded b) (n : ℕ) : Guarded (ensured b n) := by
  unfold ensured
  split_ifs
  · exact hg
  · exact guarded_compacted hg
  · exact guarded_compacted hg

/-- The readable bytes survive, unless the resize has cut them off. -/
theorem content_ensured (h : Inv b) {n : ℕ}
    (hin : (ensured b n).writeStartPosition ≤ (ensured b n).buff.size) :
    content (ensured b n) = content b := by
  revert hin
  unfold ensured
  split_ifs
  · exact fun _ => rfl
  · exact fun _ => content_compacted h
  · intro hin
    have hc := inv_compacted h
    have hr := hc.readable_le
    simp only [size_resize] at hin
    rw [← content_compacted h]
    refine window_resize ?_ ?_
    · exact le_trans (le_of_eq hr) hin
    · exact le_trans (le_of_eq hr) hc.inside

/-- **Whether the store fits.** After `ensureCapacity n` there is room for `n` bytes exactly when
`Room` held before: the resize gives `needed` bytes in all, not `needed` more, so it is only enough
when the growth factor is, or when the container was empty. -/
theorem ensured_room_iff (h : Inv b) (n : ℕ) :
    (ensured b n).writeStartPosition + n ≤ (ensured b n).buff.size ↔ Room b n := by
  have h1 := h.prepend
  have h2 := h.readable_le
  have h3 := h.inside
  have hs := size_compacted h
  unfold ensured Room
  split_ifs with hd hr
  · unfold Buffer.canWriteableDirection at hd
    constructor
    · exact fun _ => Or.inl (by omega)
    · exact fun _ => by omega
  · unfold Buffer.canWriteableTroughtReforming Buffer.canWriteableDirection at hr
    rw [hs]
    have hw : (compacted b).writeStartPosition = b.easyPrependSpace + b.readableSize := rfl
    rw [hw]
    constructor
    · exact fun hle => Or.inl hle
    · exact fun _ => by omega
  · unfold Buffer.canWriteableTroughtReforming Buffer.canWriteableDirection at hr
    have hw : (compacted b).writeStartPosition = b.easyPrependSpace + b.readableSize := rfl
    simp only [size_resize, factorExpand_compacted h, Buffer.canWriteableDirection, hs, hw]
    omega

/-! ### Appending -/

/-- The buffer after `s` is stored behind the readable bytes and counted as readable. -/
def written (b : Buffer) (s : List UInt8) : Buffer :=
  { b with
    buff := {
      cells := splice b.buff.cells b.writeStartPosition s
      stores := b.buff.stores ++ [(b.writeStartPosition, s.length)] }
    writeStartPosition := b.writeStartPosition + s.length }

/-- **What a call that adds bytes may do**: the invariant is kept, the readable bytes are the old
ones followed by `s`, the two constants stay, and the prepend area is left alone. -/
structure Extends (b b' : Buffer) (s : List UInt8) : Prop where
  inv : Inv b'
  content : content b' = content b ++ s
  prepend : b'.easyPrependSpace = b.easyPrependSpace
  factor : b'.expandFactor = b.expandFactor
  guarded : Guarded b → Guarded b'

theorem Extends.trans {b b' b'' : Buffer} {s t : List UInt8} (h : Extends b b' s)
    (h' : Extends b' b'' t) : Extends b b'' (s ++ t) where
  inv := h'.inv
  content := by rw [h'.content, h.content, List.append_assoc]
  prepend := h'.prepend.trans h.prepend
  factor := h'.factor.trans h.factor
  guarded hg := h'.guarded (h.guarded hg)

theorem written_extends (h : Inv b) {s : List UInt8}
    (hle : b.writeStartPosition + s.length ≤ b.buff.size) : Extends b (written b s) s := by
  have hr := h.readable_le
  refine ⟨⟨h.prepend, Nat.le_add_right_of_le h.order, ?_⟩, ?_, rfl, rfl, fun hg st hst => ?_⟩
  · exact le_of_le_of_eq hle (length_splice hle).symm
  · have hs : (written b s).readableSize = b.readableSize + s.length := by
      simp only [written, Buffer.readableSize] at hr ⊢; omega
    rw [content, hs]
    exact window_splice_append hr (by unfold ContentContainer.size at hle; omega)
  · rcases List.mem_append.mp hst with hst | hst
    · exact hg st hst
    · rw [List.mem_singleton.mp hst]
      exact h.prepend.trans h.order

theorem ensured_extends (h : Inv b) {n : ℕ}
    (hin : (ensured b n).writeStartPosition ≤ (ensured b n).buff.size) :
    Extends b (ensured b n) [] := by
  obtain ⟨hpre, hef, -, hpr, hord⟩ := ensured_frame h n
  refine ⟨⟨hpre ▸ hpr, hord, hin⟩, ?_, hpre, hef, fun hg => guarded_ensured hg n⟩
  rw [content_ensured h hin, List.append_nil]

/-- The call, up to its store. -/
theorem append_eq (h : Inv b) (s : List UInt8) :
    b.append s = if Room b s.length then .ok (written (ensured b s.length) s)
      else .error .outOfBounds := by
  unfold Buffer.append
  simp only [ensureCapacity_eq h, ok_bind, Buffer.begin2Write]
  split_ifs with hroom
  · have hle := (ensured_room_iff h s.length).mpr hroom
    simp only [store_of_le hle, ok_bind]
    rfl
  · have hle := fun hle => hroom ((ensured_room_iff h s.length).mp hle)
    simp only [store_of_not_le hle, error_bind]

theorem append_ok_iff (h : Inv b) (s : List UInt8) :
    (∃ b', b.append s = .ok b') ↔ Room b s.length := by
  rw [append_eq h]
  split_ifs with hroom <;> simp [hroom]

/-- **What `append` does.** -/
theorem append_extends (h : Inv b) {s : List UInt8} {b' : Buffer} (he : b.append s = .ok b') :
    Extends b b' s := by
  have hroom := (append_ok_iff h s).mp ⟨b', he⟩
  have hle := (ensured_room_iff h s.length).mpr hroom
  rw [append_eq h, if_pos hroom] at he
  cases he
  have h1 := ensured_extends h (n := s.length) (by omega)
  exact h1.trans (written_extends h1.inv hle)

/-! ### Reading from a descriptor -/

/-- The part of the bytes delivered that goes into the container, and the room it leaves. -/
theorem take_room_le (h : Inv b) (data : List UInt8) :
    b.writeStartPosition + (data.take b.canWriteableDirection).length ≤ b.buff.size := by
  have := h.inside
  unfold Buffer.canWriteableDirection
  rw [List.length_take]; omega

/-- The buffer once the container is full and its cursor is put at the end. -/
theorem written_full (h : Inv b) {data : List UInt8} (hover : b.canWriteableDirection < data.length) :
    (written b (data.take b.canWriteableDirection)).writeStartPosition = b.buff.size := by
  have := h.inside
  unfold Buffer.canWriteableDirection at *
  simp only [written, List.length_take]; omega

/-- What was too much for the container fits after the rest has been stored exactly when the whole
would have fitted. -/
theorem room_written_iff (h : Inv b) {data : List UInt8}
    (hover : b.canWriteableDirection < data.length) :
    Room (written b (data.take b.canWriteableDirection)) (data.drop b.canWriteableDirection).length ↔
      Room b data.length := by
  have hfull := written_full h hover
  have hr := h.readable_le
  have hle := take_room_le h data
  have hread : (written b (data.take b.canWriteableDirection)).readableSize +
      (data.drop b.canWriteableDirection).length = b.readableSize + data.length := by
    have := h.inside
    rw [Buffer.readableSize, hfull, List.length_drop]
    unfold Buffer.canWriteableDirection at *
    simp only [written]
    omega
  have hsz : (written b (data.take b.canWriteableDirection)).buff.size = b.buff.size :=
    length_splice hle
  have hfac : (written b (data.take b.canWriteableDirection)).factorExpand = b.factorExpand := by
    unfold Buffer.factorExpand; rw [hsz]; rfl
  have hpre : (written b (data.take b.canWriteableDirection)).easyPrependSpace =
      b.easyPrependSpace := rfl
  unfold Room
  rw [hsz, hfac, hpre, Nat.add_assoc, hread, ← Nat.add_assoc]

/-- The call, up to the `append` of what the static array took. -/
theorem readFromFD_eq (h : Inv b) (data : List UInt8) :
    b.readFromFD (some data) =
      if b.canWriteableDirection < data.length then do
        let b' ← (written b (data.take b.canWriteableDirection)).append
          (data.drop b.canWriteableDirection)
        return (b', (data.length : ℤ))
      else .ok (written b data, (data.length : ℤ)) := by
  unfold Buffer.readFromFD
  simp only [Buffer.begin2Write, store_of_le (take_room_le h data), ok_bind, gt_iff_lt]
  split_ifs with hover
  · have hfull := written_full h hover
    have hsz : (written b (data.take b.canWriteableDirection)).buff.size = b.buff.size :=
      length_splice (take_room_le h data)
    unfold written at hfull hsz ⊢
    simp only at hfull hsz
    rw [hfull]
    simp only [hsz]
  · have htake : data.take b.canWriteableDirection = data := List.take_of_length_le (by omega)
    rw [htake]
    rfl

theorem readFromFD_ok_iff (h : Inv b) (data : List UInt8) :
    (∃ r, b.readFromFD (some data) = .ok r) ↔ Room b data.length := by
  rw [readFromFD_eq h]
  split_ifs with hover
  · rw [← room_written_iff h hover,
      ← append_ok_iff (written_extends h (take_room_le h data)).inv]
    constructor
    · rintro ⟨r, hr⟩
      obtain ⟨b', hb, -⟩ := bind_eq_ok.mp hr
      exact ⟨b', hb⟩
    · rintro ⟨b', hb⟩
      exact ⟨(b', (data.length : ℤ)), by rw [hb]; rfl⟩
  · refine ⟨fun _ => Or.inl ?_, fun _ => ⟨_, rfl⟩⟩
    have h1 := h.prepend
    have h2 := h.readable_le
    have h3 := h.inside
    unfold Buffer.canWriteableDirection at hover
    omega

/-- **What `readFromFD` does** with the bytes delivered. -/
theorem readFromFD_extends (h : Inv b) {data : List UInt8} {b' : Buffer} {n : ℤ}
    (he : b.readFromFD (some data) = .ok (b', n)) : Extends b b' data ∧ n = data.length := by
  rw [readFromFD_eq h] at he
  split_ifs at he with hover
  · have h1 := written_extends h (take_room_le h data)
    obtain ⟨c, hc, hcb⟩ := bind_eq_ok.mp he
    cases hcb
    have h2 := h1.trans (append_extends h1.inv hc)
    rw [List.take_append_drop] at h2
    exact ⟨h2, rfl⟩
  · cases he
    have hle : b.writeStartPosition + data.length ≤ b.buff.size := by
      have := h.inside
      unfold Buffer.canWriteableDirection at hover
      omega
    exact ⟨written_extends h hle, rfl⟩

end Chaining.Stream.Cursors
