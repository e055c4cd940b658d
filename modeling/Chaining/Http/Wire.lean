import Chaining.Base.Lines
import Chaining.Http.Response
import Chaining.Stream.Cursors

/-! # The bytes of a response

`Serialization` appends the status line, a line for each header field, an empty line and the body, one
piece after the other: `wire` is the text that comes of it (`serialization_content`), for any sink, and
so for the byte buffer (`bufferSink`). -/

namespace Chaining.Http.Wire

open Chaining.Base.Lines Chaining.Outcome Chaining.Http.Response
open Chaining.Stream

/-- The status line, without the end of the line. -/
def statusText (l : StatusLine) : Bytes :=
  l.version.text ++ bytes " " ++ toText l.code.toNat ++ bytes " " ++ l.statusMessage

/-- The line of a header field, without the end of the line. -/
def field (e : Bytes × Bytes) : Bytes := e.1 ++ bytes ": " ++ e.2

/-- The body, if there is one. -/
def bodyText (r : HttpResponse) : Bytes := if r.useBody then r.body else []

/-- **The text of a response.** -/
def wire (r : HttpResponse) (order : List (Bytes × Bytes)) : Bytes :=
  statusText r.statusLine ++ 13 :: 10 :: block 13 10 (order.map field) (bodyText r)

variable {S : Sink} {b b' : S.Buff}

theorem serilization_content {l : StatusLine} (h : l.Serilization S b = .ok b') :
    S.content b' = S.content b ++ (statusText l ++ [13, 10]) := by
  unfold StatusLine.Serilization at h
  obtain ⟨b₁, h1, h⟩ := bind_eq_ok.mp h
  obtain ⟨b₂, h2, h⟩ := bind_eq_ok.mp h
  obtain ⟨b₃, h3, h⟩ := bind_eq_ok.mp h
  obtain ⟨b₄, h4, h⟩ := bind_eq_ok.mp h
  obtain ⟨b₅, h5, h6⟩ := bind_eq_ok.mp h
  rw [S.content_append h6, S.content_append h5, S.content_append h4, S.content_append h3,
    S.content_append h2, S.content_append h1]
  simp only [statusText, List.append_assoc]

theorem appendFields_content : ∀ {order : List (Bytes × Bytes)} {b : S.Buff},
    appendFields S order b = .ok b' → ∀ body,
      S.content b' ++ 13 :: 10 :: body = S.content b ++ block 13 10 (order.map field) body
  | [], _, h, body => by
    cases h
    rfl
  | (first, second) :: rest, b, h, body => by
    unfold appendFields at h
    obtain ⟨b₁, h1, h⟩ := bind_eq_ok.mp h
    obtain ⟨b₂, h2, h⟩ := bind_eq_ok.mp h
    obtain ⟨b₃, h3, h⟩ := bind_eq_ok.mp h
    obtain ⟨b₄, h4, h⟩ := bind_eq_ok.mp h
    rw [appendFields_content h body, S.content_append h4, S.content_append h3, S.content_append h2,
      S.content_append h1]
    simp only [List.map_cons, block, field, List.append_assoc, List.cons_append, List.nil_append]

/-- **What `Serialization` appends.** -/
theorem serialization_content {r : HttpResponse} {order : List (Bytes × Bytes)}
    (h : r.Serialization S order b = .ok b') : S.content b' = S.content b ++ wire r order := by
  unfold HttpResponse.Serialization at h
  obtain ⟨b₁, h1, h⟩ := bind_eq_ok.mp h
  obtain ⟨b₂, h2, h⟩ := bind_eq_ok.mp h
  obtain ⟨b₃, h3, h⟩ := bind_eq_ok.mp h
  have hbody : S.content b' = S.content b₃ ++ bodyText r := by
    unfold bodyText
    split_ifs at h ⊢
    · exact S.content_append h
    · cases h
      exact (List.append_nil _).symm
  have hfields := appendFields_content h2 (bodyText r)
  rw [hbody, S.content_append h3, List.append_assoc]
  refine hfields.trans ?_
  rw [serilization_content h1]
  simp only [wire, List.append_assoc, List.cons_append, List.nil_append]

theorem appendFields_total (hS : ∀ b s, ∃ b', S.append b s = .ok b') :
    ∀ (order : List (Bytes × Bytes)) (b : S.Buff), ∃ b', appendFields S order b = .ok b'
  | [], b => ⟨b, rfl⟩
  | (first, second) :: rest, b => by
    obtain ⟨b₁, h1⟩ := hS b first
    obtain ⟨b₂, h2⟩ := hS b₁ (bytes ": ")
    obtain ⟨b₃, h3⟩ := hS b₂ second
    obtain ⟨b₄, h4⟩ := hS b₃ [13, 10]
    obtain ⟨b', h'⟩ := appendFields_total hS rest b₄
    exact ⟨b', by simp only [appendFields, h1, h2, h3, h4, ok_bind, h']⟩

/-- `Serialization` returns if every `append` does. -/
theorem serialization_total (hS : ∀ b s, ∃ b', S.append b s = .ok b') (r : HttpResponse)
    (order : List (Bytes × Bytes)) (b : S.Buff) : ∃ b', r.Serialization S order b = .ok b' := by
  obtain ⟨b₁, h1⟩ := hS b r.statusLine.version.text
  obtain ⟨b₂, h2⟩ := hS b₁ (bytes " ")
  obtain ⟨b₃, h3⟩ := hS b₂ (toText r.statusLine.code.toNat)
  obtain ⟨b₄, h4⟩ := hS b₃ (bytes " ")
  obtain ⟨b₅, h5⟩ := hS b₄ r.statusLine.statusMessage
  obtain ⟨b₆, h6⟩ := hS b₅ [13, 10]
  obtain ⟨b₇, h7⟩ := appendFields_total hS order b₆
  obtain ⟨b₈, h8⟩ := hS b₇ [13, 10]
  obtain ⟨b₉, h9⟩ := hS b₈ r.body
  unfold HttpResponse.Serialization StatusLine.Serilization
  simp only [h1, h2, h3, h4, h5, h6, h7, h8, ok_bind]
  split_ifs
  · exact ⟨b₉, h9⟩
  · exact ⟨b₈, rfl⟩

/-- The byte buffer, in the states it can be in. -/
def bufferSink : Sink where
  Buff := { b : Defs.Buffer // Cursors.Inv b }
  content b := Cursors.content b.1
  append b s :=
    match h : b.1.append s with
    | .ok b' => .ok ⟨b', (Cursors.append_extends b.2 h).inv⟩
    | .error e => .error e
  content_append := by
    intro b b' s h
    split at h
    · next c hc =>
      cases h
      exact (Cursors.append_extends b.2 hc).content
    · cases h

end Chaining.Http.Wire
