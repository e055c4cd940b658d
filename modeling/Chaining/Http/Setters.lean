import Chaining.Http.Wire

/-! # What calls make of a response

The setters are last-wins: of a sequence of calls on a fresh response it is the last of each kind that
the response shows (`lastCode`, `lastBody`), and for the header fields the last with a name
(`lastValue`). Whatever the calls, the status line holds a reason phrase of the table
(`build_message`); if all status codes are of the enumeration it is that of the last
(`build_statusLine`). -/

namespace Chaining.Http.Setters

open Chaining.Http.Response Chaining.Http.Wire

/-- The value last given for a name. -/
def lastValue (name : Bytes) (calls : List Call) : Option Bytes :=
  calls.reverse.findSome? fun
    | .addHeader n value => if n = name then some value else none
    | _ => none

/-- The status code last set, 200 if none. -/
def lastCode (calls : List Call) : StatusCode :=
  (calls.reverse.findSome? fun
    | .setStatusCode code => some code
    | _ => none).getD StatusCode.c200

/-- The body last set, empty if none. -/
def lastBody (calls : List Call) : Bytes :=
  (calls.reverse.findSome? fun
    | .setBody str => some str
    | _ => none).getD []

section Last
variable (calls : List Call) (name n value str : Bytes) (code : StatusCode)

theorem lastValue_snoc (c : Call) : lastValue name (calls ++ [c]) =
    match c with
    | .addHeader n value => if n = name then some value else lastValue name calls
    | _ => lastValue name calls := by
  unfold lastValue
  rw [List.reverse_append, List.reverse_singleton, List.singleton_append, List.findSome?_cons]
  cases c with
  | addHeader n value =>
    dsimp only
    split_ifs <;> rfl
  | setStatusCode | setBody => rfl

theorem lastCode_snoc (c : Call) : lastCode (calls ++ [c]) =
    match c with
    | .setStatusCode code => code
    | _ => lastCode calls := by
  unfold lastCode
  rw [List.reverse_append, List.reverse_singleton, List.singleton_append, List.findSome?_cons]
  cases c <;> rfl

theorem lastBody_snoc (c : Call) : lastBody (calls ++ [c]) =
    match c with
    | .setBody str => str
    | _ => lastBody calls := by
  unfold lastBody
  rw [List.reverse_append, List.reverse_singleton, List.singleton_append, List.findSome?_cons]
  cases c <;> rfl

theorem build_snoc (c : Call) : build (calls ++ [c]) = (build calls).call c := by
  unfold build
  rw [List.foldl_append]
  rfl

end Last

/-! ### Header fields and body -/

theorem mem_assign (h : HeaderField) (n v name value : Bytes) :
    (name, value) ∈ (h.assign n v).entries ↔
      name = n ∧ value = v ∨ name ≠ n ∧ (name, value) ∈ h.entries := by
  unfold HeaderField.assign
  rw [List.mem_cons, List.mem_filter, Prod.mk.injEq]
  simp only [decide_eq_true_eq, and_comm]

/-- **The map** has the value last given for each name. -/
theorem build_entries (calls : List Call) (name value : Bytes) :
    (name, value) ∈ (build calls).requestHeader.entries ↔ lastValue name calls = some value := by
  induction calls using List.reverseRecOn with
  | nil => exact iff_of_false List.not_mem_nil fun h => by cases h
  | append_singleton calls c ih =>
    rw [build_snoc, lastValue_snoc]
    cases c with
    | addHeader n v =>
      show (name, value) ∈ ((build calls).requestHeader.assign n v).entries ↔ _
      rw [mem_assign]
      dsimp only
      by_cases hn : n = name
      · rw [if_pos hn, Option.some.injEq]
        constructor
        · rintro (⟨-, h⟩ | ⟨h, -⟩)
          · exact h.symm
          · exact absurd hn.symm h
        · exact fun h => Or.inl ⟨hn.symm, h.symm⟩
      · rw [if_neg hn, ← ih]
        constructor
        · rintro (⟨h, -⟩ | ⟨-, h⟩)
          · exact absurd h.symm hn
          · exact h
        · exact fun h => Or.inr ⟨fun h => hn h.symm, h⟩
    | setStatusCode | setBody => exact ih

theorem build_body (calls : List Call) : bodyText (build calls) = lastBody calls := by
  induction calls using List.reverseRecOn with
  | nil => rfl
  | append_singleton calls c ih =>
    rw [build_snoc, lastBody_snoc]
    cases c with
    | setBody str => exact if_pos rfl
    | addHeader | setStatusCode => exact ih

/-! ### Status line -/

theorem build_version (calls : List Call) : (build calls).statusLine.version = .v11 := by
  induction calls using List.reverseRecOn with
  | nil => rfl
  | append_singleton calls c ih =>
    rw [build_snoc]
    cases c with
    | setStatusCode code =>
      show ((build calls).statusLine.setCode code).1.version = .v11
      unfold StatusLine.setCode
      dsimp only
      split <;> exact ih
    | addHeader | setBody => exact ih

theorem setCode_of_some {l : StatusLine} {code : StatusCode} {message : Bytes}
    (h : StatusCode2Message code = some message) :
    l.setCode code = ({ l with code := code, statusMessage := message }, .returned) := by
  unfold StatusLine.setCode
  dsimp only
  rw [h]

theorem setCode_of_none {l : StatusLine} {code : StatusCode} (h : StatusCode2Message code = none) :
    l.setCode code = ({ l with code := code }, .threw) := by
  unfold StatusLine.setCode
  dsimp only
  rw [h]

/-- The reason phrase is one of the table, also after codes that it lacks. -/
theorem build_message (calls : List Call) :
    ∃ code, StatusCode2Message code = some (build calls).statusLine.statusMessage := by
  induction calls using List.reverseRecOn with
  | nil => exact ⟨StatusCode.c200, StatusCode2Message_c200⟩
  | append_singleton calls c ih =>
    rw [build_snoc]
    cases c with
    | setStatusCode code =>
      show ∃ code', StatusCode2Message code' =
        some ((build calls).statusLine.setCode code).1.statusMessage
      match h : StatusCode2Message code with
      | some message => exact ⟨code, by rw [setCode_of_some h, h]⟩
      | none =>
        rw [setCode_of_none h]
        exact ih
    | addHeader | setBody => exact ih

/-- The table has every code of the enumeration. -/
theorem enumerators_message :
    ∀ code ∈ StatusCode.enumerators, (StatusCode2Message code).isSome = true := by
  -- on the list: `decide` on the quantifier may run through all numbers
  have hall : (StatusCode.enumerators.all fun code => (StatusCode2Message code).isSome) = true := by
    decide +kernel
  exact List.all_eq_true.mp hall

/-- **The status line** shows the code last set, and its phrase. -/
theorem build_statusLine {calls : List Call}
    (h : ∀ code, .setStatusCode code ∈ calls → code ∈ StatusCode.enumerators) :
    (build calls).statusLine.code = lastCode calls ∧
      StatusCode2Message (lastCode calls) = some (build calls).statusLine.statusMessage := by
  induction calls using List.reverseRecOn with
  | nil => exact ⟨rfl, StatusCode2Message_c200⟩
  | append_singleton calls c ih =>
    have ih := ih fun code hc => h code (List.mem_append_left _ hc)
    rw [build_snoc, lastCode_snoc]
    cases c with
    | setStatusCode code =>
      have hcode := h code (List.mem_append_right _ List.mem_cons_self)
      obtain ⟨message, hm⟩ := Option.isSome_iff_exists.mp (enumerators_message code hcode)
      show ((build calls).statusLine.setCode code).1.code = code ∧
        StatusCode2Message code = some ((build calls).statusLine.setCode code).1.statusMessage
      rw [setCode_of_some hm]
      exact ⟨rfl, hm⟩
    | addHeader | setBody => exact ih

/-- No reason phrase has an end of a line in it. -/
theorem cr_notMem_message {code : StatusCode} {message : Bytes}
    (h : StatusCode2Message code = some message) : 13 ∉ message := by
  have htable : ∀ e ∈ code2Message, 13 ∉ bytes e.2 := by decide +kernel
  unfold StatusCode2Message at h
  obtain ⟨text, hl, rfl⟩ := Option.map_eq_some_iff.mp h
  obtain ⟨l₁, l₂, heq, -⟩ := List.lookup_eq_some_iff.mp hl
  exact htable (code, text) (heq ▸ List.mem_append_right _ List.mem_cons_self)

end Chaining.Http.Setters
