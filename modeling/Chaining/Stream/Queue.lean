import Chaining.Base.Runs
import Chaining.Stream.Cursors

/-! # The buffer is a byte queue

What the buffer is for: a queue of bytes, appended to at one end and retrieved from the other, with a
search for the two line delimiters. `QueueStep` is that queue, without cursors or containers.
`exec_refines` matches one call of the buffer with one step of the queue; `buffer_refines_queue` does
the same for whole runs, for every capacity and every growth factor: no compaction, resize or
scattered read loses, duplicates or reorders a byte, and the prepend area is never stored to. -/

namespace Chaining.Stream.Queue

open Chaining.Base.Runs Chaining.Base.Search Chaining.Base.Window Chaining.Outcome
open Chaining.Stream.Defs Chaining.Stream.Cursors

/-- **The queue.** One call on a queue that holds `q`: what it answers, and what the queue holds
afterwards. -/
inductive QueueStep : List UInt8 → Op → Answer → List UInt8 → Prop
  | append (q s : List UInt8) : QueueStep q (.append s) .none (q ++ s)
  | retrieve {q : List UInt8} {n : ℕ} (h : n ≤ q.length) :
      QueueStep q (.retrieve n) .none (q.drop n)
  | retrieveAsString {q : List UInt8} {n : ℕ} (h : n ≤ q.length) :
      QueueStep q (.retrieveAsString n) (.str (q.take n)) (q.drop n)
  | retrieveTooMuch {q : List UInt8} {n : ℕ} (h : q.length < n) :
      QueueStep q (.retrieveAsString n) (.str []) q
  | retrieveUtil {q : List UInt8} {k : ℕ} (h : k ≤ q.length) :
      QueueStep q (.retrieveUtil k) .none (q.drop k)
  | retrieveAsStringUtil {q : List UInt8} {k : ℕ} (h : k ≤ q.length) :
      QueueStep q (.retrieveAsStringUtil k) (.str (q.take k)) (q.drop k)
  | crlfFound {q : List UInt8} {i : ℕ} (h : FirstAt crlf q i) :
      QueueStep q .findCRLF (.pos (some i)) q
  | crlfMissing {q : List UInt8} (h : ¬ Occurs crlf q) : QueueStep q .findCRLF (.pos none) q
  | doubleFound {q : List UInt8} {i : ℕ} (h : FirstAt crlfDouble q i) :
      QueueStep q .findCRLFDouble (.pos (some i)) q
  | doubleMissing {q : List UInt8} (h : ¬ Occurs crlfDouble q) :
      QueueStep q .findCRLFDouble (.pos none) q
  | received (q s : List UInt8) : QueueStep q (.readFromFD (some s)) (.count s.length) (q ++ s)
  | failed (q : List UInt8) : QueueStep q (.readFromFD none) (.count (-1)) q

variable {b b' : Buffer}

/-! ### Taking from the front -/

theorem take_drop_retrieve (h : Inv b) {n : ℕ} (hn : n ≤ b.readableSize) :
    window b.buff.cells b.peek n = (content b).take n ∧
      content (b.retrieve n) = (content b).drop n := by
  have hl : (window b.buff.cells b.peek n).length = n := by
    have h2 := h.readable_le
    have h3 := h.inside
    refine length_window ?_
    unfold Buffer.peek ContentContainer.size at *
    omega
  rw [content_retrieve hn]
  exact ⟨(List.take_left' hl).symm, (List.drop_left' hl).symm⟩

/-! ### The delimiters -/

theorem find_eq (h : Inv b) (d : List UInt8) :
    b.find d = if search d (content b) < (content b).length
      then some (b.peek + search d (content b)) else none := by
  have hle := search_le_length d (content b)
  have hr : b.peek + b.readableSize = b.begin2Write := h.readable_le
  rw [h.length_content] at hle ⊢
  unfold Buffer.find
  show (if b.peek + search d (content b) ≠ b.begin2Write
    then some (b.peek + search d (content b)) else none) = _
  by_cases hlt : search d (content b) < b.readableSize
  · rw [if_pos hlt, if_pos (by omega)]
  · rw [if_neg hlt, if_neg (by omega)]

/-- Where a search finds the delimiter, as a distance from `begin`. -/
theorem find_found (h : Inv b) {d : List UInt8} (hd : d ≠ []) {p : ℕ} (hp : b.find d = some p) :
    FirstAt d (content b) (p - b.peek) := by
  rw [find_eq h] at hp
  split_ifs at hp with hlt
  cases hp
  rw [Nat.add_sub_cancel_left]
  exact firstAt_search hd ((search_lt_iff hd _).mp hlt)

theorem find_missing (h : Inv b) {d : List UInt8} (hd : d ≠ []) (hp : b.find d = none) :
    ¬ Occurs d (content b) := by
  rw [find_eq h] at hp
  split_ifs at hp with hlt
  exact fun hocc => hlt ((search_lt_iff hd _).mpr hocc)

/-! ### One call -/

/-- What no call changes, and what every call keeps. -/
structure Kept (b b' : Buffer) : Prop where
  inv : Inv b'
  prepend : b'.easyPrependSpace = b.easyPrependSpace
  factor : b'.expandFactor = b.expandFactor
  guarded : Guarded b → Guarded b'

theorem Kept.refl (h : Inv b) : Kept b b := ⟨h, rfl, rfl, id⟩

theorem Kept.retrieve (h : Inv b) {n : ℕ} (hn : n ≤ b.readableSize) : Kept b (b.retrieve n) :=
  ⟨h.retrieve hn, rfl, rfl, id⟩

theorem Kept.of_extends {s : List UInt8} (h : Extends b b' s) : Kept b b' :=
  ⟨h.inv, h.prepend, h.factor, h.guarded⟩

/-- The position that the two `assert`s admit. -/
theorem assert_admits {k : ℕ} (h : Inv b) (hk : 0 < k ∧ k < b.readableSize) :
    b.peek + k > b.peek ∧ b.peek + k < b.begin2Write := by
  have hr := h.readable_le
  unfold Buffer.peek Buffer.begin2Write
  omega

theorem retrieveUtil_eq {k : ℕ} (h : Inv b) (hk : 0 < k ∧ k < b.readableSize) :
    b.retrieveUtil (b.peek + k) = .ok (b.retrieve k) := by
  unfold Buffer.retrieveUtil
  rw [if_pos (assert_admits h hk), Nat.add_sub_cancel_left]

theorem retrieveAsString_of_le {n : ℕ} (hn : n ≤ b.readableSize) :
    b.retrieveAsString n = (b.retrieve n, window b.buff.cells b.peek n) := by
  unfold Buffer.retrieveAsString
  rw [if_neg (not_lt.mpr hn)]

theorem retrieveAsString_of_lt {n : ℕ} (hn : b.readableSize < n) :
    b.retrieveAsString n = (b, []) := by
  unfold Buffer.retrieveAsString
  rw [if_pos hn]

theorem retrieveAsStringUtil_eq {k : ℕ} (h : Inv b) (hk : 0 < k ∧ k < b.readableSize) :
    b.retrieveAsStringUtil (b.peek + k) = .ok (b.retrieve k, window b.buff.cells b.peek k) := by
  unfold Buffer.retrieveAsStringUtil
  rw [if_pos (assert_admits h hk), Nat.add_sub_cancel_left, retrieveAsString_of_le hk.2.le]

/-- **One call of the buffer is one step of the queue.** -/
theorem exec_refines (h : Inv b) {op : Op} {a : Answer} (hadm : Admits b op)
    (he : exec b op = .ok (b', a)) : Kept b b' ∧ QueueStep (content b) op a (content b') := by
  have hlen := h.length_content
  cases op with
  | append s =>
    obtain ⟨c, hc, hcb⟩ := bind_eq_ok.mp he
    cases hcb
    have hx := append_extends h hc
    exact ⟨.of_extends hx, hx.content ▸ .append _ s⟩
  | retrieve n =>
    cases he
    rw [(take_drop_retrieve h hadm).2]
    exact ⟨.retrieve h hadm, .retrieve (hlen ▸ hadm)⟩
  | retrieveAsString n =>
    cases he
    rcases Nat.lt_or_ge b.readableSize n with hn | hn
    · rw [retrieveAsString_of_lt hn]
      exact ⟨.refl h, .retrieveTooMuch (hlen ▸ hn)⟩
    · obtain ⟨ht, hd⟩ := take_drop_retrieve h hn
      rw [retrieveAsString_of_le hn, ht, hd]
      exact ⟨.retrieve h hn, .retrieveAsString (hlen ▸ hn)⟩
  | retrieveUtil k =>
    simp only [exec, retrieveUtil_eq h hadm, ok_bind] at he
    cases he
    rw [(take_drop_retrieve h hadm.2.le).2]
    exact ⟨.retrieve h hadm.2.le, .retrieveUtil (hlen ▸ hadm.2.le)⟩
  | retrieveAsStringUtil k =>
    simp only [exec, retrieveAsStringUtil_eq h hadm, ok_bind] at he
    cases he
    obtain ⟨ht, hd⟩ := take_drop_retrieve h hadm.2.le
    rw [ht, hd]
    exact ⟨.retrieve h hadm.2.le, .retrieveAsStringUtil (hlen ▸ hadm.2.le)⟩
  | findCRLF =>
    cases he
    refine ⟨.refl h, ?_⟩
    cases hf : b.findCRLF with
    | none => exact .crlfMissing (find_missing h (by decide) hf)
    | some p => exact .crlfFound (find_found h (by decide) hf)
  | findCRLFDouble =>
    cases he
    refine ⟨.refl h, ?_⟩
    cases hf : b.findCRLFDouble with
    | none => exact .doubleMissing (find_missing h (by decide) hf)
    | some p => exact .doubleFound (find_found h (by decide) hf)
  | readFromFD r =>
    cases r with
    | none =>
      cases he
      exact ⟨.refl h, .failed _⟩
    | some data =>
      obtain ⟨⟨c, n⟩, hc, hcb⟩ := bind_eq_ok.mp he
      cases hcb
      obtain ⟨hx, rfl⟩ := readFromFD_extends h hc
      exact ⟨.of_extends hx, hx.content ▸ .received _ data⟩

/-! ### Runs -/

/-- The simulation: the cursors are in order and the readable bytes are what the queue holds. -/
structure Represents (pre : ℕ) (b : Buffer) (q : List UInt8) : Prop where
  inv : Inv b
  bytes : content b = q
  prepend : b.easyPrependSpace = pre
  guarded : Guarded b

theorem represents_new (init : ℕ) (ef : ℚ) {pre : ℕ} (h : pre ≤ init) :
    Represents pre (Buffer.new init ef pre) [] :=
  ⟨inv_new init ef pre h, content_new init ef pre, rfl, fun _ hst => absurd hst List.not_mem_nil⟩

/-- **The buffer refines the queue**, over whole runs: whatever calls are made, as long as every
store has landed inside the container, the answers are those of a queue that began empty, and the
bytes from `Peek` are what it holds. -/
theorem buffer_refines_queue (init : ℕ) (ef : ℚ) {pre : ℕ} (hpre : pre ≤ init) {ops : List Op}
    {answers : List Answer} {b : Buffer} (hadm : Along exec Admits (Buffer.new init ef pre) ops)
    (hrun : Run exec (Buffer.new init ef pre) ops answers b) :
    ∃ q, SpecRun QueueStep [] ops answers q ∧ b.readableSize = q.length ∧
      window b.buff.cells b.peek b.readableSize = q ∧ ∀ st ∈ b.buff.stores, pre ≤ st.1 := by
  have hsim : ∀ b q op b' a, Represents pre b q → Admits b op → exec b op = .ok (b', a) →
      ∃ q', QueueStep q op a q' ∧ Represents pre b' q' := by
    intro b q op b' a hR hA he
    obtain ⟨hk, hq⟩ := exec_refines hR.inv hA he
    exact ⟨content b', hR.bytes ▸ hq, hk.inv, rfl, hk.prepend.trans hR.prepend,
      hk.guarded hR.guarded⟩
  obtain ⟨q, hq, hR⟩ := hrun.simulates hsim (represents_new init ef hpre) hadm
  refine ⟨q, hq, ?_, hR.bytes, fun st hst => hR.prepend ▸ hR.guarded st hst⟩
  rw [← hR.bytes, hR.inv.length_content]

/-- A run through a scattered read and a compaction. -/
theorem buffer_refines_queue_scattered :
    ∃ answers b q,
      Run exec (Buffer.new 4 2 1)
        [.append [65, 13], .retrieveAsString 1, .readFromFD (some [10, 66]), .findCRLF] answers b ∧
      SpecRun QueueStep []
        [.append [65, 13], .retrieveAsString 1, .readFromFD (some [10, 66]), .findCRLF] answers q ∧
      b.readableSize = q.length ∧ window b.buff.cells b.peek b.readableSize = q ∧
      ∀ st ∈ b.buff.stores, 1 ≤ st.1 := by
  have hrun : Run exec (Buffer.new 4 2 1)
      [.append [65, 13], .retrieveAsString 1, .readFromFD (some [10, 66]), .findCRLF] _ _ :=
    .cons rfl (.cons rfl (.cons rfl (.cons rfl (.nil _))))
  have hadm : Along exec Admits (Buffer.new 4 2 1)
      [.append [65, 13], .retrieveAsString 1, .readFromFD (some [10, 66]), .findCRLF] :=
    ⟨trivial, fun _ _ _ => ⟨trivial, fun _ _ _ =>
      ⟨Nat.le_add_left_of_le (by decide), fun _ _ _ => ⟨trivial, fun _ _ _ => trivial⟩⟩⟩⟩
  obtain ⟨q, hq⟩ := buffer_refines_queue 4 2 (by decide) hadm hrun
  exact ⟨_, _, q, hrun, hq⟩

end Chaining.Stream.Queue
