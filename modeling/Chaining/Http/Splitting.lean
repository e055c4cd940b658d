import Chaining.Http.Grammar

/-! # Splitting a response

`addHeader` takes any strings, and `Serialization` writes them as they are. `Unsplit` says of a text
that it has one line for each header field between the status line and the first empty line, and behind
that the body. It holds exactly if no name or value of the map has an end of a line in it
(`unsplit_iff`): a lone CR or LF does no harm, also at the end of a name or value, nor does a `':'`. -/

namespace Chaining.Http.Splitting

open Chaining.Base.Lines Chaining.Base.Search Chaining.Outcome
open Chaining.Http.Response Chaining.Http.Wire Chaining.Http.Setters Chaining.Http.Grammar

/-- **One line for each field**, and the body behind them. -/
def Unsplit (r : HttpResponse) (text : Bytes) : Prop :=
  ∃ rest lines, readLine 13 10 text = some (statusText r.statusLine, rest) ∧
    readBlock 13 10 rest = some (lines, bodyText r) ∧ lines.length = r.requestHeader.entries.length

theorem unsplit_wire_iff (calls : List Call) {order : List (Bytes × Bytes)}
    (ho : order.Perm (build calls).requestHeader.entries) :
    Unsplit (build calls) (wire (build calls) order) ↔
      ∀ e ∈ (build calls).requestHeader.entries, ¬ Occurs [13, 10] e.1 ∧ ¬ Occurs [13, 10] e.2 := by
  have hne : (13 : UInt8) ≠ 10 := by decide
  have hfields : (∀ line ∈ order.map field, ¬ Occurs [13, 10] line) ↔
      ∀ e ∈ (build calls).requestHeader.entries, ¬ Occurs [13, 10] e.1 ∧ ¬ Occurs [13, 10] e.2 := by
    rw [List.forall_mem_map]
    refine forall_congr' fun e => ?_
    rw [ho.mem_iff, occurs_field, not_or]
  have hnonempty : ∀ line ∈ order.map field, line ≠ [] := by
    intro line hline
    obtain ⟨e, -, rfl⟩ := List.mem_map.mp hline
    rw [field_eq]
    simp
  have hlen : (order.map field).length = (build calls).requestHeader.entries.length := by
    rw [List.length_map, ho.length_eq]
  have hread := readLine_append hne (not_occurs_statusText calls)
    (block 13 10 (order.map field) (bodyText (build calls)))
  rw [← hfields, ← readBlock_iff hne hnonempty, hlen]
  constructor
  · rintro ⟨rest, lines, h1, h2, h3⟩
    cases hread.symm.trans h1
    exact ⟨lines, h2, h3⟩
  · rintro ⟨lines, h2, h3⟩
    exact ⟨_, lines, hread, h2, h3⟩

/-- **When a response is not split.** On a buffer whose `append` returns and adds its bytes at the end,
`Serialization` appends a text with one line for each header field between the status line and the
first empty line, and exactly the body behind that, if and only if no name or value of the map has the
bytes CR LF in it, whatever calls built the response and in whatever order the fields stand. -/
theorem unsplit_iff (S : Sink) (hS : ∀ b s, ∃ b', S.append b s = .ok b') (calls : List Call)
    {order : List (Bytes × Bytes)} (ho : order.Perm (build calls).requestHeader.entries)
    (buff : S.Buff) :
    ∃ buff' text, (build calls).Serialization S order buff = .ok buff' ∧
      S.content buff' = S.content buff ++ text ∧
        (Unsplit (build calls) text ↔
          ∀ e ∈ (build calls).requestHeader.entries,
            ¬ Occurs [13, 10] e.1 ∧ ¬ Occurs [13, 10] e.2) := by
  obtain ⟨buff', he⟩ := serialization_total hS (build calls) order buff
  exact ⟨buff', _, he, serialization_content he, unsplit_wire_iff calls ho⟩

/-- A value with a lone CR at its end. -/
theorem unsplit_iff_loneCR :
    ∃ buff' text, (build [.addHeader (bytes "A") (bytes "b\r")]).Serialization listSink
        [(bytes "A", bytes "b\r")] [] = .ok buff' ∧
      listSink.content buff' = listSink.content [] ++ text ∧
        (Unsplit (build [.addHeader (bytes "A") (bytes "b\r")]) text ↔
          ∀ e ∈ (build [.addHeader (bytes "A") (bytes "b\r")]).requestHeader.entries,
            ¬ Occurs [13, 10] e.1 ∧ ¬ Occurs [13, 10] e.2) :=
  unsplit_iff listSink (fun _ _ => ⟨_, rfl⟩) [.addHeader (bytes "A") (bytes "b\r")] (.refl _) []

/-- **A split response**: the value of its only header field adds another. -/
theorem response_split :
    ∃ text, (build [.addHeader (bytes "A") (bytes "b\r\nC: d")]).Serialization listSink
        (build [.addHeader (bytes "A") (bytes "b\r\nC: d")]).requestHeader.entries [] = .ok text ∧
      text = bytes "HTTP/1.1 200 OK\r\nA: b\r\nC: d\r\n\r\n" ∧
        ¬ Unsplit (build [.addHeader (bytes "A") (bytes "b\r\nC: d")]) text := by
  have hrest : readLine 13 10 (bytes "HTTP/1.1 200 OK\r\nA: b\r\nC: d\r\n\r\n") =
      some (bytes "HTTP/1.1 200 OK", bytes "A: b\r\nC: d\r\n\r\n") := by decide +kernel
  have hlines : readBlock 13 10 (bytes "A: b\r\nC: d\r\n\r\n") =
      some ([bytes "A: b", bytes "C: d"], []) := by decide +kernel
  have hwire : wire (build [.addHeader (bytes "A") (bytes "b\r\nC: d")])
      (build [.addHeader (bytes "A") (bytes "b\r\nC: d")]).requestHeader.entries =
        bytes "HTTP/1.1 200 OK\r\nA: b\r\nC: d\r\n\r\n" := by decide +kernel
  obtain ⟨text, he⟩ := serialization_total (S := listSink) (fun _ _ => ⟨_, rfl⟩)
    (build [.addHeader (bytes "A") (bytes "b\r\nC: d")])
    (build [.addHeader (bytes "A") (bytes "b\r\nC: d")]).requestHeader.entries []
  have htext : text = bytes "HTTP/1.1 200 OK\r\nA: b\r\nC: d\r\n\r\n" :=
    (serialization_content he).trans hwire
  refine ⟨text, he, htext, ?_⟩
  rw [htext]
  rintro ⟨rest, lines, h1, h2, h3⟩
  rw [hrest] at h1
  cases h1
  rw [hlines] at h2
  cases h2
  exact absurd h3 (by decide)

end Chaining.Http.Splitting
