import Chaining.Stream.Queue

/-! # Consuming what the delimiter search finds

`findCRLF` and `findCRLFDouble` answer any position of the readable bytes, their first one included;
the two members that retrieve up to a position `assert` that it is behind the first readable byte. So
an empty line, whose delimiter is at the very start, is found but cannot be consumed, although
`retrieve(0)` and `retrieveAsString(0)` take it. `consumes_iff` says that this is the only position
that goes wrong. -/

namespace Chaining.Stream.Consume

open Chaining.Base.Search Chaining.Base.Window Chaining.Outcome
open Chaining.Stream.Defs Chaining.Stream.Cursors Chaining.Stream.Queue

/-- **What the search and the retrieving members owe each other**, for an answer of the search: a
position can be consumed, which gives the bytes before the first delimiter and leaves those from the
delimiter on; null means that there is none. -/
def Consumes (delimiter : List UInt8) (b : Buffer) : Option ℕ → Prop
  | none => ¬ Occurs delimiter (content b)
  | some pos =>
    (∃ b', b.retrieveUtil pos = .ok b' ∧ delimiter <+: content b') ∧
      ∃ b' s, b.retrieveAsStringUtil pos = .ok (b', s) ∧ content b = s ++ content b' ∧
        FirstAt delimiter (content b) s.length ∧ ¬ Occurs delimiter s ∧ delimiter <+: content b'

variable {b : Buffer}

/-- The `assert` in front of both members, for a position behind the first readable byte. -/
theorem retrieve_at (h : Inv b) {k : ℕ} (h0 : k ≠ 0) (hk : k < b.readableSize) :
    b.retrieveUtil (b.peek + k) = .ok (b.retrieve k) ∧
      b.retrieveAsStringUtil (b.peek + k) = .ok (b.retrieve k, (content b).take k) := by
  have hpos : 0 < k ∧ k < b.readableSize := ⟨Nat.pos_of_ne_zero h0, hk⟩
  refine ⟨retrieveUtil_eq h hpos, ?_⟩
  rw [retrieveAsStringUtil_eq h hpos, (take_drop_retrieve h hk.le).1]

/-- The `assert` fails at the first readable byte. -/
theorem retrieveUtil_peek (b : Buffer) : b.retrieveUtil b.peek = .error .assertFailed :=
  if_neg fun hpos => lt_irrefl _ hpos.1

/-- A delimiter behind the first readable byte is consumed. -/
theorem consumes_at (h : Inv b) {d : List UInt8} (hd : d ≠ []) {k : ℕ} (h0 : k ≠ 0)
    (hfirst : FirstAt d (content b) k) : Consumes d b (some (b.peek + k)) := by
  have hlt : k < b.readableSize := h.length_content ▸ hfirst.1.lt_length hd
  obtain ⟨hu, hs⟩ := retrieve_at h h0 hlt
  have hrest : content (b.retrieve k) = (content b).drop k := (take_drop_retrieve h hlt.le).2
  have hstart : d <+: content (b.retrieve k) := hrest ▸ hfirst.1
  have hlen : ((content b).take k).length = k := by
    rw [List.length_take, h.length_content, Nat.min_eq_left hlt.le]
  refine ⟨⟨b.retrieve k, hu, hstart⟩, b.retrieve k, (content b).take k, hs, ?_, ?_, ?_, hstart⟩
  · rw [hrest, List.take_append_drop]
  · rwa [hlen]
  · exact hfirst.not_occurs_take hd

/-- A delimiter at the first readable byte is not. -/
theorem not_consumes_peek (d : List UInt8) (b : Buffer) : ¬ Consumes d b (some b.peek) := by
  rintro ⟨⟨b', hu, -⟩, -⟩
  rw [retrieveUtil_peek] at hu
  cases hu

/-- The search of one delimiter. -/
theorem consumes_find_iff (h : Inv b) {d : List UInt8} (hd : d ≠ []) :
    Consumes d b (b.find d) ↔ ¬ d <+: content b := by
  rw [find_eq h]
  split_ifs with hlt
  · have hfirst := firstAt_search hd ((search_lt_iff hd _).mp hlt)
    rw [← firstAt_zero_iff]
    by_cases h0 : search d (content b) = 0
    · rw [h0] at hfirst ⊢
      exact ⟨fun hc => absurd hc (not_consumes_peek d b), fun hn => absurd hfirst hn⟩
    · have hne : ¬ FirstAt d (content b) 0 := fun hz => h0 (firstAt_unique hfirst hz)
      exact ⟨fun _ => hne, fun _ => consumes_at h hd h0 hfirst⟩
  · have hno : ¬ Occurs d (content b) := fun hocc => hlt ((search_lt_iff hd _).mpr hocc)
    exact ⟨fun _ hp => hno ⟨0, hp⟩, fun _ => hno⟩

/-- **When what is found can be consumed**: unless the readable bytes begin with the delimiter. -/
theorem consumes_iff (h : Inv b) :
    (Consumes crlf b b.findCRLF ↔ ¬ crlf <+: content b) ∧
      (Consumes crlfDouble b b.findCRLFDouble ↔ ¬ crlfDouble <+: content b) :=
  ⟨consumes_find_iff h (by decide), consumes_find_iff h (by decide)⟩

/-- A buffer that holds one line and the empty line behind it. -/
def oneLine : Buffer where
  buff := { cells := [65, 13, 10, 13, 10], stores := [] }
  readStartPosition := 0
  writeStartPosition := 5
  easyPrependSpace := 0
  expandFactor := defaultExpandFactor

/-- The first line is consumed, and so is the block up to the empty line. -/
theorem consumes_oneLine :
    (Consumes crlf oneLine oneLine.findCRLF ↔ ¬ crlf <+: content oneLine) ∧
      (Consumes crlfDouble oneLine oneLine.findCRLFDouble ↔ ¬ crlfDouble <+: content oneLine) ∧
      ¬ crlf <+: content oneLine ∧ ¬ crlfDouble <+: content oneLine := by
  have hc := consumes_iff (b := oneLine) ⟨by decide, by decide, by decide⟩
  exact ⟨hc.1, hc.2, by decide, by decide⟩

/-- **An empty line cannot be consumed**: it is found at the first readable byte, and both `assert`s
fail there. -/
theorem not_consumes_emptyLine :
    ∃ b, (Buffer.new 4 2 0).append crlf = .ok b ∧ Inv b ∧ b.findCRLF = some b.peek ∧
      b.retrieveUtil b.peek = .error .assertFailed ∧
      b.retrieveAsStringUtil b.peek = .error .assertFailed ∧ ¬ Consumes crlf b b.findCRLF := by
  refine ⟨_, rfl, ⟨by decide, by decide, by decide⟩, by decide, rfl, rfl, ?_⟩
  exact not_consumes_peek crlf _

end Chaining.Stream.Consume
