import Chaining.Http.Setters

/-! # A response is read back

`decode` reads the text of a response by the grammar: a status line up to the first end of a line, then
lines `name: value` up to the first empty one, and the rest as the body. If no name has a `':'` in it,
and no name or value a CR or LF, it gives back what the calls on the response set
(`response_determined`): every border is found where it was written, whatever the body holds and in
whatever order the fields stand. -/

namespace Chaining.Http.Grammar

open Chaining.Base.Lines Chaining.Base.Search Chaining.Outcome
open Chaining.Http.Response Chaining.Http.Wire Chaining.Http.Setters

/-! ### The grammar -/

/-- What stands before the first `c`, and what behind it. -/
def readUntil (c : UInt8) (l : Bytes) : Option (Bytes × Bytes) :=
  match l.dropWhile (· ≠ c) with
  | [] => none
  | _ :: rest => some (l.takeWhile (· ≠ c), rest)

/-- A number in decimal digits. -/
def readNumber (l : Bytes) : Option ℕ :=
  if l ≠ [] ∧ l.all fun d => 48 ≤ d ∧ d ≤ 57 then
    some (l.foldl (fun n d => 10 * n + (d.toNat - 48)) 0)
  else none

/-- `version code phrase`. -/
def readStatus (l : Bytes) : Option (Bytes × ℕ × Bytes) := do
  let (version, l) ← readUntil 32 l
  let (code, phrase) ← readUntil 32 l
  return (version, ← readNumber code, phrase)

/-- `name: value`. -/
def readField (l : Bytes) : Option (Bytes × Bytes) := do
  let (name, l) ← readUntil 58 l
  match l with
  | 32 :: value => return (name, value)
  | _ => none

structure Decoded where
  version : Bytes
  code : ℕ
  phrase : Bytes
  headers : List (Bytes × Bytes)
  body : Bytes

/-- **The reader of a response.** -/
def decode (l : Bytes) : Option Decoded := do
  let (status, l) ← readLine 13 10 l
  let (version, code, phrase) ← readStatus status
  let (lines, body) ← readBlock 13 10 l
  let headers ← lines.mapM readField
  return { version, code, phrase, headers, body }

/-! ### What is read is what was written -/

theorem readUntil_append {c : UInt8} {l : Bytes} (h : c ∉ l) (rest : Bytes) :
    readUntil c (l ++ c :: rest) = some (l, rest) := by
  have hall : ∀ x ∈ l, decide (x ≠ c) = true := fun x hx =>
    decide_eq_true fun hxc => h (hxc ▸ hx)
  unfold readUntil
  rw [List.dropWhile_append_of_pos hall, List.takeWhile_append_of_pos hall]
  simp

/-- The digits of a number fit into bytes. -/
theorem digit_bounds {n : ℕ} {c : Char} (h : c ∈ Nat.toDigits 10 n) : 48 ≤ c.toNat ∧ c.toNat ≤ 57 := by
  have hdigit := Nat.isDigit_of_mem_toDigits (by norm_num) (by norm_num) h
  simp only [Char.isDigit, Bool.and_eq_true, decide_eq_true_eq, UInt32.le_iff_toNat_le, ge_iff_le] at hdigit
  exact hdigit

theorem toNat_digit {n : ℕ} {c : Char} (h : c ∈ Nat.toDigits 10 n) :
    (UInt8.ofNat c.toNat).toNat = c.toNat := by
  obtain ⟨-, hle⟩ := digit_bounds h
  rw [UInt8.toNat_ofNat']
  exact Nat.mod_eq_of_lt (by omega)

theorem toText_digit {n : ℕ} {d : UInt8} (h : d ∈ toText n) : 48 ≤ d ∧ d ≤ 57 := by
  obtain ⟨c, hc, rfl⟩ := List.mem_map.mp h
  rw [UInt8.le_iff_toNat_le, UInt8.le_iff_toNat_le, toNat_digit hc]
  exact digit_bounds hc

theorem readNumber_toText (n : ℕ) : readNumber (toText n) = some n := by
  have hne : toText n ≠ [] := fun h => Nat.toDigits_ne_nil (List.map_eq_nil_iff.mp h)
  have hfold : ∀ (cs : List Char) (init : ℕ), (∀ c ∈ cs, (UInt8.ofNat c.toNat).toNat = c.toNat) →
      (cs.map fun c => UInt8.ofNat c.toNat).foldl (fun n d => 10 * n + (d.toNat - 48)) init =
        Nat.ofDigitChars 10 cs init := by
    intro cs
    induction cs with
    | nil => exact fun _ _ => rfl
    | cons c cs ih =>
      intro init h
      rw [List.map_cons, List.foldl_cons, Nat.ofDigitChars_cons, h c List.mem_cons_self]
      exact ih _ fun c' hc' => h c' (List.mem_cons_of_mem c hc')
  have hdigits : (toText n).all (fun d => 48 ≤ d ∧ d ≤ 57) = true :=
    List.all_eq_true.mpr fun d hd => decide_eq_true (toText_digit hd)
  unfold readNumber
  rw [if_pos ⟨hne, hdigits⟩]
  unfold toText
  rw [hfold _ 0 fun c hc => toNat_digit hc, Nat.ofDigitChars_toDigits (by norm_num) (by norm_num)]

theorem readStatus_statusText (l : StatusLine) :
    readStatus (statusText l) = some (l.version.text, l.code.toNat, l.statusMessage) := by
  have hversion : (32 : UInt8) ∉ l.version.text := by
    cases l.version <;> decide
  have hcode : (32 : UInt8) ∉ toText l.code.toNat := fun h => by
    have hdigit := toText_digit h
    revert hdigit
    decide
  have hshape : statusText l = l.version.text ++ 32 :: (toText l.code.toNat ++ 32 :: l.statusMessage) := by
    have hspace : bytes " " = [32] := by decide
    simp only [statusText, hspace, List.append_assoc, List.cons_append, List.nil_append]
  unfold readStatus
  rw [hshape, readUntil_append hversion]
  simp only [Option.bind_eq_bind, Option.bind_some, readUntil_append hcode, readNumber_toText]
  rfl

theorem field_eq (e : Bytes × Bytes) : field e = e.1 ++ 58 :: 32 :: e.2 := by
  have hcolon : bytes ": " = [58, 32] := by decide
  simp only [field, hcolon, List.append_assoc, List.cons_append, List.nil_append]

theorem readField_field {e : Bytes × Bytes} (h : 58 ∉ e.1) : readField (field e) = some e := by
  unfold readField
  rw [field_eq, readUntil_append h]
  rfl

theorem mapM_readField : ∀ {order : List (Bytes × Bytes)}, (∀ e ∈ order, 58 ∉ e.1) →
    (order.map field).mapM readField = some order
  | [], _ => rfl
  | e :: order, h => by
    rw [List.map_cons, List.mapM_cons, readField_field (h e List.mem_cons_self),
      mapM_readField fun e' he' => h e' (List.mem_cons_of_mem e he')]
    rfl

/-- An end of a line in a field is one in its name or its value. -/
theorem occurs_field (e : Bytes × Bytes) :
    Occurs [13, 10] (field e) ↔ Occurs [13, 10] e.1 ∨ Occurs [13, 10] e.2 := by
  have hcolon : ¬ Occurs [13, 10] ([58, 32] : Bytes) := not_occurs_pair_of_notMem (by decide)
  rw [field_eq, show e.1 ++ 58 :: 32 :: e.2 = e.1 ++ ([58, 32] ++ e.2) from rfl,
    occurs_pair_append, occurs_pair_append]
  simp [hcolon]

/-- The status line has no end of a line in it. -/
theorem not_occurs_statusText (calls : List Call) :
    ¬ Occurs [13, 10] (statusText (build calls).statusLine) := by
  obtain ⟨code, hm⟩ := build_message calls
  refine not_occurs_pair_of_notMem ?_
  unfold statusText
  rw [build_version]
  simp only [List.mem_append, not_or]
  refine ⟨⟨⟨⟨by decide, by decide⟩, fun h => ?_⟩, by decide⟩, cr_notMem_message hm⟩
  have hdigit := toText_digit h
  revert hdigit
  decide

/-- **The text of a response is read back**, if its fields have no end of a line in them and no `':'` in
a name. -/
theorem decode_wire {calls : List Call} {order : List (Bytes × Bytes)}
    (h : ∀ e ∈ order, 58 ∉ e.1 ∧ ¬ Occurs [13, 10] e.1 ∧ ¬ Occurs [13, 10] e.2) :
    decode (wire (build calls) order) = some {
      version := bytes "HTTP/1.1"
      code := (build calls).statusLine.code.toNat
      phrase := (build calls).statusLine.statusMessage
      headers := order
      body := lastBody calls } := by
  have hlines : ∀ line ∈ order.map field, line ≠ [] ∧ ¬ Occurs [13, 10] line := by
    intro line hline
    obtain ⟨e, he, rfl⟩ := List.mem_map.mp hline
    obtain ⟨-, hname, hvalue⟩ := h e he
    rw [occurs_field]
    exact ⟨by rw [field_eq]; simp, not_or.mpr ⟨hname, hvalue⟩⟩
  have hne : (13 : UInt8) ≠ 10 := by decide
  unfold decode wire
  rw [readLine_append hne (not_occurs_statusText calls)]
  simp only [Option.bind_eq_bind, Option.bind_some, readStatus_statusText,
    readBlock_block hne hlines, mapM_readField fun e he => (h e he).1, build_version, build_body]
  rfl

/-! ### A response is determined by its text -/

/-- The calls of a caller who keeps to the grammar: no CR, LF or `':'` in a name, no CR or LF in a
value, and codes of the enumeration. -/
def Legal : Call → Prop
  | .addHeader name value => 13 ∉ name ∧ 10 ∉ name ∧ 58 ∉ name ∧ 13 ∉ value ∧ 10 ∉ value
  | .setStatusCode code => code ∈ StatusCode.enumerators
  | .setBody _ => True

instance : DecidablePred Legal
  | .addHeader name value =>
    inferInstanceAs (Decidable (13 ∉ name ∧ 10 ∉ name ∧ 58 ∉ name ∧ 13 ∉ value ∧ 10 ∉ value))
  | .setStatusCode code => inferInstanceAs (Decidable (code ∈ StatusCode.enumerators))
  | .setBody _ => inferInstanceAs (Decidable True)

/-- What is read is what the calls set. -/
structure Reads (d : Decoded) (calls : List Call) : Prop where
  version : d.version = bytes "HTTP/1.1"
  code : d.code = (lastCode calls).toNat
  phrase : StatusCode2Message (lastCode calls) = some d.phrase
  names : (d.headers.map Prod.fst).Nodup
  headers : ∀ name value, (name, value) ∈ d.headers ↔ lastValue name calls = some value
  body : d.body = lastBody calls

/-- A value that is shown was given. -/
theorem lastValue_mem {name value : Bytes} {calls : List Call} (h : lastValue name calls = some value) :
    .addHeader name value ∈ calls := by
  obtain ⟨c, hc, hv⟩ := List.exists_of_findSome?_eq_some h
  cases c with
  | addHeader n v =>
    dsimp only at hv
    split_ifs at hv with hn
    cases hv
    exact hn ▸ List.mem_reverse.mp hc
  | setStatusCode | setBody => cases hv

theorem reads_of_legal {calls : List Call} (h : ∀ c ∈ calls, Legal c) {order : List (Bytes × Bytes)}
    (ho : order.Perm (build calls).requestHeader.entries) :
    ∃ d, decode (wire (build calls) order) = some d ∧ Reads d calls := by
  have hmem : ∀ name value, (name, value) ∈ order ↔ lastValue name calls = some value :=
    fun name value => ho.mem_iff.trans (build_entries calls name value)
  have hplain : ∀ e ∈ order, 58 ∉ e.1 ∧ ¬ Occurs [13, 10] e.1 ∧ ¬ Occurs [13, 10] e.2 := by
    rintro ⟨name, value⟩ he
    obtain ⟨hcr, -, hcolon, hcr', -⟩ := h _ (lastValue_mem ((hmem name value).mp he))
    exact ⟨hcolon, not_occurs_pair_of_notMem hcr, not_occurs_pair_of_notMem hcr'⟩
  obtain ⟨hcode, hphrase⟩ := build_statusLine fun code hc => h _ hc
  exact ⟨_, decode_wire hplain, {
    version := rfl
    code := congrArg UInt16.toNat hcode
    phrase := hphrase
    names := (ho.map Prod.fst).nodup_iff.mpr (build calls).requestHeader.nodup
    headers := hmem
    body := rfl }⟩

/-- Two sequences of calls that are read from one text set the same. -/
theorem Reads.agree {d : Decoded} {calls calls' : List Call} (h : Reads d calls)
    (h' : Reads d calls') : lastCode calls' = lastCode calls ∧
      (∀ name, lastValue name calls' = lastValue name calls) ∧ lastBody calls' = lastBody calls := by
  refine ⟨?_, fun name => Option.ext fun value => ?_, h'.body.symm.trans h.body⟩
  · exact UInt16.toNat_inj.mp (h'.code.symm.trans h.code)
  · exact (h'.headers name value).symm.trans (h.headers name value)

/-- **A serialised response determines the response.** On a buffer whose `append` returns and adds its
bytes at the end, `Serialization` appends a text that is read back as what the calls set, in whatever
order the header fields stand; and other calls after which the same text is appended set the same. -/
theorem response_determined (S : Sink) (hS : ∀ b s, ∃ b', S.append b s = .ok b') {calls : List Call}
    (h : ∀ c ∈ calls, Legal c) {order : List (Bytes × Bytes)}
    (ho : order.Perm (build calls).requestHeader.entries) (buff : S.Buff) :
    ∃ buff' text, (build calls).Serialization S order buff = .ok buff' ∧
      S.content buff' = S.content buff ++ text ∧ (∃ d, decode text = some d ∧ Reads d calls) ∧
        ∀ calls', (∀ c ∈ calls', Legal c) → ∀ order',
          order'.Perm (build calls').requestHeader.entries → ∀ b b',
            (build calls').Serialization S order' b = .ok b' → S.content b' = S.content b ++ text →
              lastCode calls' = lastCode calls ∧
                (∀ name, lastValue name calls' = lastValue name calls) ∧
                  lastBody calls' = lastBody calls := by
  obtain ⟨buff', he⟩ := serialization_total hS (build calls) order buff
  obtain ⟨d, hd, hreads⟩ := reads_of_legal h ho
  refine ⟨buff', _, he, serialization_content he, ⟨d, hd, hreads⟩, ?_⟩
  intro calls' h' order' ho' b b' he' htext
  obtain ⟨d', hd', hreads'⟩ := reads_of_legal h' ho'
  have hsame : wire (build calls') order' = wire (build calls) order :=
    List.append_cancel_left ((serialization_content he').symm.trans htext)
  rw [hsame, hd] at hd'
  cases hd'
  exact hreads.agree hreads'

/-- A list of bytes that grows at its end. -/
def listSink : Sink where
  Buff := Bytes
  content := id
  append b s := .ok (b ++ s)
  content_append := by
    intro b b' s h
    cases h
    rfl

/-- A response whose body looks like one, with a header field given twice. -/
def sampleCalls : List Call :=
  [.addHeader (bytes "Server") (bytes "a: b"), .setStatusCode StatusCode.c404,
    .setBody (bytes "x: y\r\n\r\nz"), .addHeader (bytes "Server") []]

theorem response_determined_sample :
    (∀ c ∈ sampleCalls, Legal c) ∧
      ∃ buff' text, (build sampleCalls).Serialization listSink [(bytes "Server", [])] [] = .ok buff' ∧
        listSink.content buff' = listSink.content [] ++ text ∧
        (∃ d, decode text = some d ∧ Reads d sampleCalls) ∧
          ∀ calls', (∀ c ∈ calls', Legal c) → ∀ order',
            order'.Perm (build calls').requestHeader.entries → ∀ b b',
              (build calls').Serialization listSink order' b = .ok b' →
                listSink.content b' = listSink.content b ++ text →
                  lastCode calls' = lastCode sampleCalls ∧
                    (∀ name, lastValue name calls' = lastValue name sampleCalls) ∧
                      lastBody calls' = lastBody sampleCalls := by
  have h : ∀ c ∈ sampleCalls, Legal c := by decide
  refine ⟨h, response_determined listSink (fun _ _ => ⟨_, rfl⟩) h ?_ []⟩
  decide

/-- **In the byte buffer**: if `Serialization` returns, with every store inside the container, the
readable bytes are those there were and a text that is read back. -/
theorem response_in_buffer {calls : List Call} (h : ∀ c ∈ calls, Legal c)
    {order : List (Bytes × Bytes)} (ho : order.Perm (build calls).requestHeader.entries)
    {buff buff' : bufferSink.Buff}
    (he : (build calls).Serialization bufferSink order buff = .ok buff') :
    ∃ text d, Stream.Cursors.content buff'.1 = Stream.Cursors.content buff.1 ++ text ∧
      decode text = some d ∧ Reads d calls := by
  obtain ⟨d, hd, hreads⟩ := reads_of_legal h ho
  exact ⟨_, d, serialization_content he, hd, hreads⟩

end Chaining.Http.Grammar
