import Chaining.Base.Runs
import Chaining.Http.Setters

/-! # A status code that is refused

`setCode` assigns the code and then looks its phrase up. For a code that the table lacks the lookup
throws, after the assignment: the response has the new code and the old phrase, and is serialized so
from then on. `unchanged_iff_listed` says that this is the only way a run of calls goes wrong. -/

namespace Chaining.Http.Refused

open Chaining.Base.Runs Chaining.Outcome
open Chaining.Http.Response Chaining.Http.Wire Chaining.Http.Setters

/-- A call, with how it ended. -/
def exec (r : HttpResponse) : Call → Except Fault (HttpResponse × Ended)
  | .addHeader name value => .ok (r.addHeader name value, .returned)
  | .setStatusCode code => .ok (r.setStatusCode code)
  | .setBody str => .ok (r.setBody str, .returned)

/-- **The status line tells the truth**: whatever `Serialization` appends to begins with the code and
the phrase that the table has for it. -/
def Tells (r : HttpResponse) : Prop :=
  ∃ phrase, StatusCode2Message r.statusLine.code = some phrase ∧
    ∀ (S : Sink) (order : List (Bytes × Bytes)) (b b' : S.Buff),
      r.Serialization S order b = .ok b' → ∃ rest, S.content b' = S.content b ++
        (r.statusLine.version.text ++ bytes " " ++ toText r.statusLine.code.toNat ++ bytes " " ++
          phrase ++ 13 :: 10 :: rest)

/-- **What a call owes**: if it throws, the response is as it was; and the status line tells the truth
afterwards. -/
structure Keeps (r : HttpResponse) (c : Call) : Prop where
  unchanged : ∀ r', exec r c = .ok (r', .threw) → r' = r
  tells : ∀ r' e, exec r c = .ok (r', e) → Tells r'

/-- **The condition**: a status code that is set is one of the enumeration. -/
def Listed (c : Call) : Prop := ∀ code, c = .setStatusCode code → code ∈ StatusCode.enumerators

/-- The phrase is that of the code. -/
def Matches (r : HttpResponse) : Prop :=
  StatusCode2Message r.statusLine.code = some r.statusLine.statusMessage

variable {r r' : HttpResponse} {c : Call}

theorem tells_of_matches (h : Matches r) : Tells r := by
  refine ⟨r.statusLine.statusMessage, h, fun S order b b' hser => ?_⟩
  exact ⟨_, serialization_content hser⟩

theorem matches_new : Matches .new := StatusCode2Message_c200

/-- The table has the codes of the enumeration and no others. -/
theorem message_eq_none {code : StatusCode} (h : code ∉ StatusCode.enumerators) :
    StatusCode2Message code = none := by
  have hkeys : code2Message.map Prod.fst = StatusCode.enumerators := rfl
  unfold StatusCode2Message
  rw [Option.map_eq_none_iff, List.lookup_eq_none_iff]
  intro e he
  have hmem : e.1 ∈ StatusCode.enumerators := hkeys ▸ List.mem_map_of_mem he
  have hne : code ≠ e.1 := fun heq => h (heq.symm ▸ hmem)
  exact bne_iff_ne.mpr hne

theorem exec_total (r : HttpResponse) (c : Call) : ∃ r' e, exec r c = .ok (r', e) := by
  cases c <;> exact ⟨_, _, rfl⟩

/-- A call with a code of the enumeration returns, with code and phrase set. -/
theorem exec_listed (h : Matches r) (hc : Listed c) :
    ∃ r', exec r c = .ok (r', .returned) ∧ Matches r' := by
  cases c with
  | addHeader name value => exact ⟨_, rfl, h⟩
  | setBody str => exact ⟨_, rfl, h⟩
  | setStatusCode code =>
    obtain ⟨message, hm⟩ := Option.isSome_iff_exists.mp (enumerators_message code (hc code rfl))
    refine ⟨{ r with statusLine := { r.statusLine with code := code, statusMessage := message } },
      ?_, hm⟩
    simp only [exec, HttpResponse.setStatusCode, setCode_of_some hm]

/-- A code that is refused is assigned all the same. -/
theorem exec_refused {code : StatusCode} (h : code ∉ StatusCode.enumerators) :
    exec r (.setStatusCode code) =
      .ok ({ r with statusLine := { r.statusLine with code := code } }, .threw) := by
  simp only [exec, HttpResponse.setStatusCode, setCode_of_none (message_eq_none h)]

/-- **One call** keeps the response in order exactly if it sets no code that is refused. -/
theorem keeps_iff (h : Matches r) (c : Call) : Keeps r c ↔ Listed c := by
  constructor
  · rintro hk code rfl
    by_contra hcode
    -- The response would have had the refused code before, with a phrase of the table.
    have hsame := hk.unchanged _ (exec_refused hcode)
    have heq : code = r.statusLine.code := congrArg (fun r => r.statusLine.code) hsame
    have hnone := message_eq_none hcode
    rw [heq, h] at hnone
    cases hnone
  · intro hc
    obtain ⟨r₁, he, hm⟩ := exec_listed h hc
    constructor
    · intro r' he'
      cases he.symm.trans he'
    · intro r' e he'
      cases he.symm.trans he'
      exact tells_of_matches hm

/-- **The exact condition.** A fresh response tells the truth, and in a run of calls on it every call
that throws leaves it unchanged and every call leaves it telling the truth, if and only if all status
codes that are set are of the enumeration. -/
theorem unchanged_iff_listed (calls : List Call) : Tells .new ∧
    (Along exec Keeps .new calls ↔
      ∀ code, .setStatusCode code ∈ calls → code ∈ StatusCode.enumerators) := by
  refine ⟨tells_of_matches matches_new, ?_⟩
  have hrun : Along exec Keeps .new calls ↔ Along exec (fun _ c => Listed c) .new calls :=
    along_iff (I := Matches) (A := fun _ _ => True) (fun r c h _ => keeps_iff h c)
      (fun r c r' e h _ hc he => by
        obtain ⟨r₁, he₁, hm⟩ := exec_listed h hc
        cases he.symm.trans he₁
        exact hm) matches_new
      (along_true HttpResponse.new calls)
  rw [hrun, along_forall_iff exec_total]
  exact ⟨fun h code hmem => h _ hmem code rfl, fun h c hmem code heq => h code (heq ▸ hmem)⟩

/-- **An unknown code with a known phrase**: after an attempt to set 418 that threw, the response is
serialized with `418 OK`. -/
theorem refused_code_written :
    ∃ r, exec .new (.setStatusCode 418) = .ok (r, .threw) ∧ r ≠ .new ∧
      StatusCode2Message r.statusLine.code = none ∧
      wire r [] = bytes "HTTP/1.1 418 OK" ++ [13, 10, 13, 10] ∧
      ¬ Along exec Keeps .new [.setStatusCode 418] := by
  have hne : ∀ code, ({ HttpResponse.new with
      statusLine := { HttpResponse.new.statusLine with code := code } } : HttpResponse) = .new →
        code = 200 := fun code heq => congrArg (fun r => r.statusLine.code) heq
  refine ⟨{ HttpResponse.new with
      statusLine := { HttpResponse.new.statusLine with code := 418 } }, rfl, fun heq => ?_, rfl, ?_,
    fun h => ?_⟩
  · exact absurd (hne 418 heq) (by decide)
  · decide
  · exact absurd (hne 418 (h.1.unchanged _ rfl)) (by decide)

end Chaining.Http.Refused
