import Chaining.Base.Framing
import Chaining.Base.Runs
import Chaining.Http.Grammar
import Chaining.Stream.Queue

/-! # Responses one after the other

Responses are serialised into a buffer one behind the other, and their bytes come in at another buffer
in any pieces. A response that has no body ends with the first empty line, which is what
`findCRLFDouble` searches for, if its calls keep to the grammar; so its head can be taken off with the
members of the buffer as soon as it has been received (`takeHead`), and what is taken is read back as
what the calls set (`heads_taken`). -/

namespace Chaining.Http.Pipeline

open Chaining.Base.Framing Chaining.Base.Lines Chaining.Base.Runs Chaining.Base.Search Chaining.Outcome
open Chaining.Http.Response Chaining.Http.Wire Chaining.Http.Setters Chaining.Http.Grammar
open Chaining.Stream.Defs Chaining.Stream.Cursors Chaining.Stream.Queue

/-- A response without a body: the calls that made it, which keep to the grammar, and the order its fields
are written in. -/
structure Message where
  calls : List Response.Call
  order : List (Bytes × Bytes)
  legal : ∀ c ∈ calls, Legal c
  perm : order.Perm (build calls).requestHeader.entries
  bodyless : lastBody calls = []

def Message.text (m : Message) : Bytes := wire (build m.calls) m.order

/-- The text up to the empty line. -/
def Message.head (m : Message) : Bytes := m.text.take (m.text.length - 4)

/-- What several responses are written as. -/
def texts (ms : List Message) : Bytes := ms.flatMap Message.text

section
variable (S : Sink)

/-- `Serialization` of one response after the other. -/
def serializeAll : List Message → S.Buff → Except Fault S.Buff
  | [], buff => .ok buff
  | m :: ms, buff => do
    let buff ← (build m.calls).Serialization S m.order buff
    serializeAll ms buff

end

/-- What is done with the receiving buffer: `readv` delivers bytes, or a head is taken. -/
inductive Op where
  | receive (data : Bytes)
  | take

/-- How a caller takes the head of a response, if it has been received: what stands before the empty
line is retrieved, and then the two ends of lines that make it. -/
def takeHead (b : Buffer) : Except Fault (Buffer × Option Bytes) :=
  match b.findCRLFDouble with
  | none => .ok (b, none)
  | some pos => do
    let (b, head) ← b.retrieveAsStringUtil pos
    return (b.retrieve crlfDouble.length, some head)

def exec (b : Buffer) : Op → Except Fault (Buffer × Option Bytes)
  | .receive data => do
    let (b, _) ← b.readFromFD (some data)
    return (b, none)
  | .take => takeHead b

/-- All bytes that were delivered. -/
def received (ops : List Op) : Bytes :=
  ops.flatMap fun
    | .receive data => data
    | .take => []

/-- All heads that were taken. -/
def taken (answers : List (Option Bytes)) : List Bytes := answers.reduceOption

/-! ### What is written -/

theorem serializeAll_content {S : Sink} : ∀ {ms : List Message} {b b' : S.Buff},
    serializeAll S ms b = .ok b' → S.content b' = S.content b ++ texts ms
  | [], _, _, h => by
    cases h
    exact (List.append_nil _).symm
  | m :: ms, b, b', h => by
    obtain ⟨b₁, h1, h⟩ := bind_eq_ok.mp h
    rw [serializeAll_content h, serialization_content h1, List.append_assoc]
    rfl

/-- The fields of a response that keeps to the grammar. -/
theorem plain_fields {calls : List Response.Call} (h : ∀ c ∈ calls, Legal c)
    {order : List (Bytes × Bytes)} (ho : order.Perm (build calls).requestHeader.entries) :
    ∀ line ∈ order.map field, line ≠ [] ∧ ¬ Occurs [13, 10] line := by
  intro line hline
  obtain ⟨⟨name, value⟩, he, rfl⟩ := List.mem_map.mp hline
  have hvalue := (build_entries calls name value).mp (ho.mem_iff.mp he)
  obtain ⟨hcr, -, -, hcr', -⟩ := h _ (lastValue_mem hvalue)
  rw [occurs_field, field_eq]
  exact ⟨by simp, not_or.mpr ⟨not_occurs_pair_of_notMem hcr, not_occurs_pair_of_notMem hcr'⟩⟩

/-- **The head of a response** is not empty, and the empty line behind it is the first. -/
theorem head_framed (m : Message) :
    m.text = m.head ++ crlfDouble ∧ Framed crlfDouble m.head ∧ m.head ≠ [] := by
  have hne : (13 : UInt8) ≠ 10 := by decide
  obtain ⟨text, heq, hframed, hlen⟩ := exists_framed_block hne (not_occurs_statusText m.calls)
    (plain_fields m.legal m.perm)
  have htext : m.text = text ++ crlfDouble := by
    unfold Message.text wire
    rw [build_body, m.bodyless, heq]
    rfl
  have hhead : m.head = text := by
    unfold Message.head
    rw [htext, List.length_append]
    exact List.take_left
  have hstatus : 0 < (statusText (build m.calls).statusLine).length := by
    unfold statusText
    rw [build_version]
    simp only [List.length_append]
    have hversion : 0 < Version.v11.text.length := by decide
    omega
  rw [hhead]
  exact ⟨htext, hframed, List.length_pos_iff.mp (hstatus.trans_le hlen)⟩

theorem texts_append (ms ms' : List Message) : texts (ms ++ ms') = texts ms ++ texts ms' :=
  List.flatMap_append

theorem head_decodes (m : Message) : ∃ d, decode (m.head ++ crlfDouble) = some d ∧ Reads d m.calls := by
  rw [← (head_framed m).1]
  exact reads_of_legal m.legal m.perm

/-! ### What is taken -/

variable {b b' : Buffer}

/-- **Taking from a part of the stream**: the head of the first response, if that has been received
whole, and nothing otherwise. -/
theorem takeHead_cons (h : Inv b) {m : Message} {ms : List Message}
    (hc : content b <+: texts (m :: ms)) :
    (m.text.length ≤ (content b).length ∧ ∃ b', takeHead b = .ok (b', some m.head) ∧ Inv b' ∧
        content b = m.text ++ content b') ∨
      ((content b).length < m.text.length ∧ takeHead b = .ok (b, none)) := by
  obtain ⟨htext, hframed, hne⟩ := head_framed m
  have hd : crlfDouble ≠ [] := by decide
  have hlen : m.text.length = m.head.length + crlfDouble.length := by
    rw [htext, List.length_append]
  have hstream : content b <+: m.head ++ (crlfDouble ++ texts ms) := by
    rw [← List.append_assoc, ← htext]
    exact hc
  rcases next_frame hd hframed hstream with ⟨hle, hfirst⟩ | ⟨hlt, hnone⟩
  · refine Or.inl ⟨hlen ▸ hle, ?_⟩
    obtain ⟨htake, hrest⟩ := content_eq hstream hle
    have hread := h.length_content
    have hpos : 0 < m.head.length ∧ m.head.length < b.readableSize := by
      have hfour : crlfDouble.length = 4 := rfl
      have := List.length_pos_of_ne_nil hne
      omega
    have hfind : b.findCRLFDouble = some (b.peek + m.head.length) := by
      rw [Buffer.findCRLFDouble, find_eq h, search_eq_of_firstAt hd hfirst, if_pos (by omega)]
    obtain ⟨hwindow, hdrop⟩ := take_drop_retrieve h hpos.2.le
    have hi := h.retrieve hpos.2.le
    have hsize : crlfDouble.length ≤ (b.retrieve m.head.length).readableSize := by
      rw [← hi.length_content, hdrop, List.length_drop]
      omega
    refine ⟨(b.retrieve m.head.length).retrieve crlfDouble.length, ?_, hi.retrieve hsize, ?_⟩
    · unfold takeHead
      rw [hfind]
      simp only [retrieveAsStringUtil_eq h hpos, ok_bind, hwindow, htake]
      rfl
    · rw [(take_drop_retrieve hi hsize).2, hdrop, List.drop_drop]
      exact htext ▸ hrest.trans (List.append_assoc _ _ _).symm
  · refine Or.inr ⟨hlen ▸ hlt, ?_⟩
    have hfind : b.findCRLFDouble = none := by
      rw [Buffer.findCRLFDouble, find_eq h, if_neg fun hlt => hnone ((search_lt_iff hd _).mp hlt)]
    unfold takeHead
    rw [hfind]

/-- From nothing nothing is taken. -/
theorem takeHead_nil (h : Inv b) (hc : content b = []) : takeHead b = .ok (b, none) := by
  have hfind : b.findCRLFDouble = none := by
    rw [Buffer.findCRLFDouble, find_eq h, hc]
    rfl
  unfold takeHead
  rw [hfind]

/-- **How far the receiver has come**: it has taken the heads of the first `k` responses, and has the
bytes that came behind them. -/
structure Taken (ms : List Message) (k : ℕ) (got : Bytes) (heads : List Bytes) (b : Buffer) : Prop where
  inv : Inv b
  le : k ≤ ms.length
  heads : heads = (ms.take k).map Message.head
  content : texts (ms.take k) ++ content b = got

variable {ms : List Message} {k : ℕ} {got : Bytes} {heads : List Bytes}

/-- What is in the buffer is a part of what is to come. -/
theorem Taken.rest (h : Taken ms k got heads b) (hb : got <+: texts ms) :
    Stream.Cursors.content b <+: texts (ms.drop k) := by
  obtain ⟨t, ht⟩ := hb
  have hsplit : texts (ms.take k) ++ (Stream.Cursors.content b ++ t) =
      texts (ms.take k) ++ texts (ms.drop k) := by
    rw [← List.append_assoc, h.content, ht, ← texts_append, List.take_append_drop]
  exact ⟨t, List.append_cancel_left hsplit⟩

/-- **One take**: the next head, if its response has been received, and nothing if it has not. -/
theorem Taken.take (h : Taken ms k got heads b) (hb : got <+: texts ms) :
    (∃ b' m, takeHead b = .ok (b', some m.head) ∧ ms[k]? = some m ∧
        (texts (ms.take (k + 1))).length ≤ got.length ∧
        Taken ms (k + 1) got (heads ++ [m.head]) b') ∨
      takeHead b = .ok (b, none) ∧
        (k < ms.length → got.length < (texts (ms.take (k + 1))).length) := by
  have hrest := h.rest hb
  have hlen := congrArg List.length h.content
  rw [List.length_append] at hlen
  rcases h.le.lt_or_eq with hk | hk
  · have hget : ms[k]? = some ms[k] := List.getElem?_eq_getElem hk
    have htake : ms.take (k + 1) = ms.take k ++ [ms[k]] := (List.take_append_getElem hk).symm
    have hone : texts [ms[k]] = ms[k].text := List.append_nil _
    rw [List.drop_eq_getElem_cons hk] at hrest
    rcases takeHead_cons h.inv hrest with ⟨hle, b', he, hi, hc⟩ | ⟨hlt, he⟩
    · refine Or.inl ⟨b', ms[k], he, hget, ?_, hi, hk, ?_, ?_⟩
      · rw [htake, texts_append, hone, List.length_append]
        omega
      · rw [htake, List.map_append, h.heads]
        rfl
      · rw [htake, texts_append, hone, List.append_assoc, ← hc, h.content]
    · refine Or.inr ⟨he, fun _ => ?_⟩
      rw [htake, texts_append, hone, List.length_append]
      omega
  · rw [List.drop_eq_nil_of_le hk.ge] at hrest
    exact Or.inr ⟨takeHead_nil h.inv (List.prefix_nil.mp hrest), fun hlt => absurd hk hlt.ne⟩

/-- **Receiving** adds to the bytes. -/
theorem Taken.receive (h : Taken ms k got heads b) {data : Bytes} {n : ℤ}
    (he : b.readFromFD (some data) = .ok (b', n)) : Taken ms k (got ++ data) heads b' := by
  have hx := (readFromFD_extends h.inv he).1
  refine ⟨hx.inv, h.le, h.heads, ?_⟩
  rw [hx.content, ← List.append_assoc, h.content]

/-- By induction over the run. -/
theorem run_taken {ops : List Op} {answers : List (Option Bytes)} (hrun : Run exec b ops answers b')
    (h : Taken ms k got heads b) (hb : got ++ received ops <+: texts ms) :
    ∃ k', Taken ms k' (got ++ received ops) (heads ++ taken answers) b' := by
  induction hrun generalizing k got heads with
  | nil =>
    have hgot : got ++ received [] = got := List.append_nil _
    have hheads : heads ++ taken [] = heads := List.append_nil _
    exact ⟨k, by rwa [hgot, hheads]⟩
  | @cons b b₁ b₂ op a ops answers he _ ih =>
    have hgot : got <+: texts ms := (List.prefix_append _ _).trans hb
    cases op with
    | receive data =>
      obtain ⟨⟨c, n⟩, hc, hcb⟩ := bind_eq_ok.mp he
      cases hcb
      have heq : got ++ received (.receive data :: ops) = got ++ data ++ received ops :=
        (List.append_assoc _ _ _).symm
      rw [heq] at hb ⊢
      exact ih (h.receive hc) hb
    | take =>
      rcases h.take hgot with ⟨b', m, he', -, -, h'⟩ | ⟨he', -⟩
      · cases he.symm.trans he'
        obtain ⟨k', hk'⟩ := ih h' hb
        refine ⟨k', ?_⟩
        rwa [List.append_assoc] at hk'
      · cases he.symm.trans he'
        exact ih h hb

/-- **Responses are taken as they were written.** A sender serialises responses without bodies, whose calls
keep to the grammar, one after the other into its buffer; the bytes come in at another buffer in any
pieces that it takes without a fault, and in between heads are taken. Then those that have been taken
are the heads of the first responses, each read back as what the calls set; and another take gives the
next one if its response has been received whole, and nothing otherwise. -/
theorem heads_taken (init : ℕ) (ef : ℚ) {pre : ℕ} (hpre : pre ≤ init) {S : Sink} {ms : List Message}
    {sender sender' : S.Buff} (hempty : S.content sender = [])
    (hsend : serializeAll S ms sender = .ok sender') {ops : List Op}
    {answers : List (Option Bytes)} {b : Buffer} (hwire : received ops <+: S.content sender')
    (hrun : Run exec (Buffer.new init ef pre) ops answers b) :
    ∃ k ≤ ms.length,
      List.Forall₂ (fun head m => ∃ d, decode (head ++ crlfDouble) = some d ∧ Reads d m.calls)
        (taken answers) (ms.take k) ∧
      texts (ms.take k) ++ content b = received ops ∧
      ((received ops).length < (texts (ms.take (k + 1))).length ∨ k = ms.length →
        exec b .take = .ok (b, none)) ∧
      ((texts (ms.take (k + 1))).length ≤ (received ops).length → ∀ m ∈ ms[k]?,
        ∃ b', exec b .take = .ok (b', some m.head)) := by
  rw [serializeAll_content hsend, hempty, List.nil_append] at hwire
  have h0 : Taken ms 0 [] [] (Buffer.new init ef pre) :=
    ⟨inv_new init ef pre hpre, Nat.zero_le _, rfl, content_new init ef pre⟩
  obtain ⟨k, hk⟩ := run_taken hrun h0 hwire
  rw [List.nil_append] at hk
  refine ⟨k, hk.le, ?_, hk.content, ?_, ?_⟩
  · rw [← List.nil_append (taken answers), hk.heads, List.forall₂_map_left_iff]
    exact List.forall₂_same.mpr fun m _ => head_decodes m
  · intro hshort
    rcases hk.take hwire with ⟨b', m, he, hget, hle, -⟩ | ⟨he, -⟩
    · obtain ⟨hlt, -⟩ := List.getElem?_eq_some_iff.mp hget
      omega
    · exact he
  · intro hle m hm
    rcases hk.take hwire with ⟨b', m', he, hget, -, -⟩ | ⟨-, hshort⟩
    · cases hget.symm.trans hm
      exact ⟨b', he⟩
    · obtain ⟨hlt, -⟩ := List.getElem?_eq_some_iff.mp hm
      exact absurd (hshort hlt) (by omega)

/-- A response without a header field. -/
def notFound : Message :=
  ⟨[.setStatusCode StatusCode.c404], [], by decide, .refl _, rfl⟩

/-- A response with one. -/
def withField : Message :=
  ⟨[.addHeader (bytes "A") (bytes "b")], [(bytes "A", bytes "b")], by decide, .refl _, rfl⟩

def sampleMessages : List Message := [notFound, withField]

/-- The first is received in two pieces, of which the first is not enough. -/
def samplePieces : List Op :=
  [.receive (bytes "HTTP/1.1 404 Not Found\r\n"), .take, .receive (bytes "\r\nHTTP/1.1 2"), .take]

theorem heads_taken_sample :
    ∃ answers b, Run exec (Buffer.new 64 2 0) samplePieces answers b ∧ ∃ k ≤ sampleMessages.length,
      List.Forall₂ (fun head m => ∃ d, decode (head ++ crlfDouble) = some d ∧ Reads d m.calls)
        (taken answers) (sampleMessages.take k) ∧
      texts (sampleMessages.take k) ++ content b = received samplePieces ∧
      ((received samplePieces).length < (texts (sampleMessages.take (k + 1))).length ∨
          k = sampleMessages.length → exec b .take = .ok (b, none)) ∧
      ((texts (sampleMessages.take (k + 1))).length ≤ (received samplePieces).length →
        ∀ m ∈ sampleMessages[k]?, ∃ b', exec b .take = .ok (b', some m.head)) := by
  have hrun : Run exec (Buffer.new 64 2 0) samplePieces _ _ :=
    .cons rfl (.cons rfl (.cons rfl (.cons rfl (.nil _))))
  have hwire : received samplePieces <+: notFound.text ++ (withField.text ++ []) := by decide
  exact ⟨_, _, hrun, heads_taken 64 2 (Nat.zero_le _) (S := listSink) rfl rfl hwire hrun⟩

end Chaining.Http.Pipeline
