import Chaining.Base.Runs
import Chaining.Poll.Epoller

/-! # The flags of a channel and its event mask

A channel keeps what it asks for twice, in its event mask and in three flags. Two slips let them part:
the constructor leaves the flags as it finds them in memory, and `enableError` and `disableError` do
not touch theirs. `tells_iff` gives the exact condition, on what was in memory and on the calls.

What a method does to the mask and to the flags is an assignment for each kind (`assigns`), so that
each kind can be followed by itself. -/

namespace Chaining.Poll.Flags

open Chaining.Base.Runs Chaining.Outcome Chaining.Poll.Events Chaining.Poll.Epoller

deriving instance DecidableEq for Event
deriving instance DecidableEq for Listen

variable {κ : Type*}

/-! ### What the flags owe -/

/-- `isReading`, `isWriting` and `isErroring`. -/
def flag : Event → Channel κ → Bool
  | .IN, c => c.isReading
  | .OUT, c => c.isWriting
  | .ERROR, c => c.isErroring

/-- The mask contains all the bits of the event. -/
def asked (e : Event) (c : Channel κ) : Bool := c.event &&& e.bits = e.bits

/-- What a method makes of the kind, if it is of that kind. -/
def assigns : Event → Listen → Option Bool
  | .IN, .enableRead => some true
  | .IN, .disableReading => some false
  | .OUT, .enableWrite => some true
  | .OUT, .disableWriting => some false
  | .ERROR, .enableError => some true
  | .ERROR, .disableError => some false
  | _, .disableAll => some false
  | _, _ => none

/-- The bits of the kinds that a method is of. -/
def ownBits : Listen → BitVec 32
  | .enableRead | .disableReading => Event.IN.bits
  | .enableWrite | .disableWriting => Event.OUT.bits
  | .enableError | .disableError => Event.ERROR.bits
  | .disableAll => Event.IN.bits ||| Event.OUT.bits ||| Event.ERROR.bits

/-- The flag of a kind is set after the method exactly if the mask contains its bits. -/
def Agrees (e : Event) (c : Channel κ) (m : Listen) : Prop :=
  flag e (m.apply c) = asked e (m.apply c)

/-- **What a method owes**: the flags tell the mask afterwards, and nothing but the bits and flags of
its own kinds is changed. -/
structure Tells (c : Channel κ) (m : Listen) : Prop where
  agrees : ∀ e, Agrees e c m
  flags : ∀ e, assigns e m = none → flag e (m.apply c) = flag e c
  bits : (m.apply c).event &&& ~~~ownBits m = c.event &&& ~~~ownBits m

/-- **The condition**: a flag that was found set is put right by the first call, if there is one; and
of the calls, `enableError` is never made while `isErroring` is false, nor `disableError` while it is
true, which it is at most from the construction to the first `disableAll`. -/
def Plain (junk : Channel κ) (calls : List Listen) : Prop :=
  (junk.isReading = true → ∀ m ∈ calls.head?, (assigns .IN m).isSome) ∧
    (junk.isWriting = true → ∀ m ∈ calls.head?, (assigns .OUT m).isSome) ∧
    (junk.isErroring = false → .enableError ∉ calls) ∧
    (junk.isErroring = true → (∀ m ∈ calls.head?, m = .enableError ∨ m = .disableAll) ∧
      .disableError ∉ calls.takeWhile (· ≠ .disableAll) ∧
      .enableError ∉ calls.dropWhile (· ≠ .disableAll))

/-- A call, which always returns. -/
def exec (c : Channel κ) (m : Listen) : Except Fault (Channel κ × Unit) := .ok (m.apply c, ())

/-! ### Masks -/

section Masks
variable {w : ℕ} {a b : BitVec w} (e : BitVec w)

theorem or_and_self : (e ||| a) &&& a = a := by
  ext i
  rw [BitVec.getElem_and, BitVec.getElem_or]
  cases e[i] <;> cases a[i] <;> rfl

theorem or_and_of_disjoint (h : a &&& b = 0) : (e ||| a) &&& b = e &&& b := by
  rw [BitVec.and_or_distrib_right, h]
  exact BitVec.or_zero

theorem and_not_and_of_disjoint (h : ~~~a &&& b = b) : e &&& ~~~a &&& b = e &&& b := by
  rw [BitVec.and_assoc, h]

theorem and_not_and_self : e &&& ~~~a &&& a = 0 := by
  rw [BitVec.and_assoc, BitVec.not_and_self]
  exact BitVec.and_zero

end Masks

/-! ### One method -/

theorem bits_disjoint {k e : Event} (h : k ≠ e) :
    k.bits &&& e.bits = 0 ∧ ~~~k.bits &&& e.bits = e.bits := by
  cases k <;> cases e <;> first | exact absurd rfl h | decide

/-- The bits of one kind are set. -/
theorem asked_or {c c' : Channel κ} (k e : Event) (h : c'.event = c.event ||| k.bits) :
    asked e c' = (decide (k = e) || asked e c) := by
  unfold asked
  rw [h]
  by_cases hk : k = e
  · rw [hk, or_and_self]
    simp
  · rw [or_and_of_disjoint c.event (bits_disjoint hk).1]
    simp [hk]

/-- The bits of one kind are cleared. -/
theorem asked_and_not {c c' : Channel κ} (k e : Event) (h : c'.event = c.event &&& ~~~k.bits) :
    asked e c' = (!decide (k = e) && asked e c) := by
  unfold asked
  rw [h]
  by_cases hk : k = e
  · rw [hk, and_not_and_self]
    cases e <;> rfl
  · rw [and_not_and_of_disjoint c.event (bits_disjoint hk).2]
    simp [hk]

theorem asked_of_zero {c : Channel κ} (e : Event) (h : c.event = 0) : asked e c = false := by
  unfold asked
  rw [h]
  cases e <;> rfl

theorem asked_apply (e : Event) (c : Channel κ) (m : Listen) :
    asked e (m.apply c) = (assigns e m).getD (asked e c) := by
  cases m with
  | enableRead =>
    rw [asked_or (c := c) .IN e rfl]
    cases e <;> rfl
  | enableWrite =>
    rw [asked_or (c := c) .OUT e rfl]
    cases e <;> rfl
  | enableError =>
    rw [asked_or (c := c) .ERROR e rfl]
    cases e <;> rfl
  | disableReading =>
    rw [asked_and_not (c := c) .IN e rfl]
    cases e <;> rfl
  | disableWriting =>
    rw [asked_and_not (c := c) .OUT e rfl]
    cases e <;> rfl
  | disableError =>
    rw [asked_and_not (c := c) .ERROR e rfl]
    cases e <;> rfl
  | disableAll =>
    rw [asked_of_zero e rfl]
    cases e <;> rfl

/-- The flags of reading and writing follow the mask. -/
theorem flag_apply {e : Event} (he : e ≠ .ERROR) (c : Channel κ) (m : Listen) :
    flag e (m.apply c) = (assigns e m).getD (flag e c) := by
  cases e with
  | ERROR => exact absurd rfl he
  | IN | OUT => cases m <;> rfl

/-- The flag of errors does not. -/
theorem flag_apply_error (c : Channel κ) (m : Listen) :
    flag .ERROR (m.apply c) = if m = .disableAll then false else flag .ERROR c := by
  cases m <;> rfl

theorem along_cons {P : Channel κ → Listen → Prop} {c : Channel κ} {m : Listen}
    {calls : List Listen} :
    Along exec P c (m :: calls) ↔ P c m ∧ Along exec P (m.apply c) calls :=
  ⟨fun h => ⟨h.1, h.2 _ () rfl⟩, fun h => .cons h.1 rfl h.2⟩

/-! ### Reading and writing -/

/-- A flag that tells its bits goes on doing so. -/
theorem along_agrees {e : Event} (he : e ≠ .ERROR) :
    ∀ {c : Channel κ} (calls : List Listen), flag e c = asked e c → Along exec (Agrees e) c calls
  | _, [], _ => trivial
  | c, m :: calls, h => by
    have hm : Agrees e c m := by
      unfold Agrees
      rw [flag_apply he, asked_apply, h]
    exact along_cons.mpr ⟨hm, along_agrees he calls hm⟩

/-- One that was found set is put right by the first method of its kind. -/
theorem along_agrees_iff {e : Event} (he : e ≠ .ERROR) (fd : ℤ) (junk : Channel κ)
    (calls : List Listen) : Along exec (Agrees e) (Channel.construct fd junk) calls ↔
      (flag e junk = true → ∀ m ∈ calls.head?, (assigns e m).isSome) := by
  have hflag : flag e (Channel.construct fd junk) = flag e junk := by cases e <;> rfl
  have hasked : asked e (Channel.construct fd junk) = false := asked_of_zero e rfl
  cases hj : flag e junk with
  | false =>
    refine iff_of_true (along_agrees he calls ?_) fun h => absurd h (by decide)
    rw [hflag, hasked, hj]
  | true =>
    cases calls with
    | nil => exact iff_of_true trivial (by simp)
    | cons m calls =>
      have hm : Agrees e (Channel.construct fd junk) m ↔ (assigns e m).isSome := by
        unfold Agrees
        rw [flag_apply he, asked_apply, hflag, hasked, hj]
        cases assigns e m <;> simp
      rw [along_cons, hm]
      constructor
      · rintro ⟨hfirst, -⟩ - m' hm'
        cases hm'
        exact hfirst
      · intro h
        exact ⟨h rfl m rfl, along_agrees he calls (hm.mpr (h rfl m rfl))⟩

/-! ### Errors -/

/-- The flag is false and stays so. -/
theorem along_error_off : ∀ {c : Channel κ} (calls : List Listen), flag .ERROR c = false →
    asked .ERROR c = false → (Along exec (Agrees .ERROR) c calls ↔ .enableError ∉ calls)
  | _, [], _, _ => iff_of_true trivial List.not_mem_nil
  | c, m :: calls, hf, ha => by
    have hf' : flag .ERROR (m.apply c) = false := by rw [flag_apply_error, hf, ite_self]
    rw [along_cons, List.mem_cons]
    by_cases hm : m = .enableError
    · have ha' : asked .ERROR (m.apply c) = true := by rw [asked_apply, hm]; rfl
      refine iff_of_false (fun h => ?_) fun h => h (Or.inl hm.symm)
      exact absurd (hf'.symm.trans (h.1.trans ha')) (by decide)
    · have ha' : asked .ERROR (m.apply c) = false := by
        rw [asked_apply, ha]
        cases m <;> first | rfl | exact absurd rfl hm
      rw [along_error_off calls hf' ha']
      constructor
      · rintro ⟨-, h⟩ (heq | hmem)
        · exact hm heq.symm
        · exact h hmem
      · intro h
        exact ⟨hf'.trans ha'.symm, fun hmem => h (Or.inr hmem)⟩

/-- The flag is true, and the mask has the bits, until `disableAll`. -/
theorem along_error_on : ∀ {c : Channel κ} (calls : List Listen), flag .ERROR c = true →
    asked .ERROR c = true → (Along exec (Agrees .ERROR) c calls ↔
      .disableError ∉ calls.takeWhile (· ≠ .disableAll) ∧
        .enableError ∉ calls.dropWhile (· ≠ .disableAll))
  | _, [], _, _ => by simp [Along]
  | c, m :: calls, hf, ha => by
    rw [along_cons]
    by_cases hall : m = .disableAll
    · -- From here on the flag is false.
      have hf' : flag .ERROR (m.apply c) = false := by rw [flag_apply_error, if_pos hall]
      have ha' : asked .ERROR (m.apply c) = false := by rw [hall, asked_apply]; rfl
      have hm : Agrees .ERROR c m := hf'.trans ha'.symm
      rw [along_error_off calls hf' ha', hall]
      simpa using fun _ => hall ▸ hm
    · have hf' : flag .ERROR (m.apply c) = true := by rw [flag_apply_error, if_neg hall, hf]
      have htake : (m :: calls).takeWhile (· ≠ .disableAll) =
          m :: calls.takeWhile (· ≠ .disableAll) := by simp [hall]
      have hdrop : (m :: calls).dropWhile (· ≠ .disableAll) =
          calls.dropWhile (· ≠ .disableAll) := by simp [hall]
      rw [htake, hdrop, List.mem_cons]
      by_cases hoff : m = .disableError
      · have ha' : asked .ERROR (m.apply c) = false := by rw [asked_apply, hoff]; rfl
        refine iff_of_false (fun h => ?_) fun h => h.1 (Or.inl hoff.symm)
        exact absurd (hf'.symm.trans (h.1.trans ha')) (by decide)
      · have ha' : asked .ERROR (m.apply c) = true := by
          rw [asked_apply, ha]
          cases m <;> first | rfl | exact absurd rfl hall | exact absurd rfl hoff
        rw [along_error_on calls hf' ha']
        constructor
        · rintro ⟨-, ht, hd⟩
          exact ⟨fun hmem => hmem.elim (fun heq => hoff heq.symm) ht, hd⟩
        · rintro ⟨ht, hd⟩
          exact ⟨hf'.trans ha'.symm, fun hmem => ht (Or.inr hmem), hd⟩

/-- A flag that was found true, while the mask is empty. -/
theorem along_error_found {c : Channel κ} (calls : List Listen) (hf : flag .ERROR c = true)
    (ha : asked .ERROR c = false) : Along exec (Agrees .ERROR) c calls ↔
      (∀ m ∈ calls.head?, m = .enableError ∨ m = .disableAll) ∧
        .disableError ∉ calls.takeWhile (· ≠ .disableAll) ∧
        .enableError ∉ calls.dropWhile (· ≠ .disableAll) := by
  cases calls with
  | nil => exact iff_of_true trivial (by simp)
  | cons m calls =>
    have hhead : (∀ m' ∈ (m :: calls).head?, m' = .enableError ∨ m' = .disableAll) ↔
        m = .enableError ∨ m = .disableAll := by simp
    have hfm := flag_apply_error c m
    have ham := asked_apply .ERROR c m
    rw [hf] at hfm
    rw [ha] at ham
    rw [along_cons, hhead]
    by_cases hon : m = .enableError
    · rw [hon] at hfm ham ⊢
      have hm : Agrees .ERROR c .enableError := hfm.trans ham.symm
      rw [along_error_on calls hfm ham]
      simp [hm]
    · by_cases hall : m = .disableAll
      · rw [hall] at hfm ham ⊢
        have hm : Agrees .ERROR c .disableAll := hfm.trans ham.symm
        rw [along_error_off calls hfm ham]
        simp [hm]
      · refine iff_of_false (fun h => ?_) fun h => h.1.elim hon hall
        have ha' : asked .ERROR (m.apply c) = false := by
          rw [ham]
          cases m <;> first | rfl | exact absurd rfl hon
        rw [if_neg hall] at hfm
        exact absurd (hfm.symm.trans (h.1.trans ha')) (by decide)

/-- The flag of errors, from the construction on. -/
theorem along_error_iff (fd : ℤ) (junk : Channel κ) (calls : List Listen) :
    Along exec (Agrees .ERROR) (Channel.construct fd junk) calls ↔
      (junk.isErroring = false → .enableError ∉ calls) ∧
        (junk.isErroring = true → (∀ m ∈ calls.head?, m = .enableError ∨ m = .disableAll) ∧
          .disableError ∉ calls.takeWhile (· ≠ .disableAll) ∧
          .enableError ∉ calls.dropWhile (· ≠ .disableAll)) := by
  have hasked : asked .ERROR (Channel.construct fd junk) = false := asked_of_zero .ERROR rfl
  have hflag : flag .ERROR (Channel.construct fd junk) = junk.isErroring := rfl
  cases hj : junk.isErroring with
  | false =>
    rw [along_error_off calls (hflag.trans hj) hasked]
    simp
  | true =>
    rw [along_error_found calls (hflag.trans hj) hasked]
    simp

/-! ### What else a method changes -/

/-- Bits that no method is of are not in the mask. -/
def Clean (c : Channel κ) : Prop := c.event &&& ~~~ownBits .disableAll = 0

theorem flags_frame (c : Channel κ) (m : Listen) (e : Event) (h : assigns e m = none) :
    flag e (m.apply c) = flag e c := by
  cases e <;> cases m <;> first | rfl | cases h

/-- A method keeps to its own bits, as long as the mask has only those of the three kinds. -/
theorem bits_frame {c : Channel κ} (h : Clean c) (m : Listen) :
    (m.apply c).event &&& ~~~ownBits m = c.event &&& ~~~ownBits m := by
  cases m with
  | enableRead | enableWrite | enableError =>
    exact or_and_of_disjoint c.event (BitVec.and_not_self _)
  | disableReading | disableWriting | disableError =>
    exact and_not_and_of_disjoint c.event (BitVec.and_self)
  | disableAll => exact (BitVec.zero_and).trans h.symm

theorem clean_apply {c : Channel κ} (h : Clean c) (m : Listen) : Clean (m.apply c) := by
  unfold Clean at *
  cases m with
  | enableRead => exact (or_and_of_disjoint c.event (by decide)).trans h
  | enableWrite => exact (or_and_of_disjoint c.event (by decide)).trans h
  | enableError => exact (or_and_of_disjoint c.event (by decide)).trans h
  | disableReading => exact (and_not_and_of_disjoint c.event (by decide)).trans h
  | disableWriting => exact (and_not_and_of_disjoint c.event (by decide)).trans h
  | disableError => exact (and_not_and_of_disjoint c.event (by decide)).trans h
  | disableAll => exact BitVec.zero_and

theorem tells_iff_agrees {c : Channel κ} (h : Clean c) (m : Listen) :
    Tells c m ↔ Agrees .IN c m ∧ Agrees .OUT c m ∧ Agrees .ERROR c m := by
  constructor
  · intro ht
    exact ⟨ht.agrees .IN, ht.agrees .OUT, ht.agrees .ERROR⟩
  · rintro ⟨hin, hout, herror⟩
    refine ⟨fun e => ?_, flags_frame c m, bits_frame h m⟩
    cases e
    · exact hin
    · exact hout
    · exact herror

/-- **When the flags tell the mask.** From its construction on, in memory that held anything, a
channel's flags tell its mask after every method, and every method keeps to its own bits and flags,
if and only if the condition is met. -/
theorem tells_iff (fd : ℤ) (junk : Channel κ) (calls : List Listen) :
    Along exec Tells (Channel.construct fd junk) calls ↔ Plain junk calls := by
  have hclean : Clean (Channel.construct fd junk) := BitVec.zero_and
  have hagrees : Along exec Tells (Channel.construct fd junk) calls ↔
      Along exec (fun c m => Agrees .IN c m ∧ Agrees .OUT c m ∧ Agrees .ERROR c m)
        (Channel.construct fd junk) calls := by
    refine along_iff (I := Clean) (A := fun _ _ => True) (fun _ m h _ => tells_iff_agrees h m) ?_
      hclean (along_true _ calls)
    intro c m c' o h _ _ he
    cases he
    exact clean_apply h m
  rw [hagrees, along_and, along_and, along_agrees_iff (by decide), along_agrees_iff (by decide),
    along_error_iff]
  rfl

/-- **Flags that do not tell the mask**: one that was found set, and that of errors. -/
theorem flags_mislead :
    ¬ Along exec Tells (Channel.construct 3 { (zeros 0 : Channel ℕ) with isReading := true })
        [.enableWrite] ∧
      ¬ Along exec Tells (Channel.construct 3 (zeros 0 : Channel ℕ)) [.enableError] := by
  constructor
  · rintro ⟨h, -⟩
    exact absurd (show true = false from h.agrees .IN) (by decide)
  · rintro ⟨h, -⟩
    exact absurd (show false = true from h.agrees .ERROR) (by decide)

end Chaining.Poll.Flags
