import Chaining.Net.Inet
import Chaining.Outcome

/-! # Capacities with a unit

A capacity in the settings is a number and a unit, such as `12GB`. `strtol` reads the number from the
front of the text, behind white space and with a sign if there is one, and clamps it to a `long`; what
follows is the unit, megabytes if it is none of the four. The product is taken in `size_t`, to which the
`long` is converted first.

`Reads` says which number and unit a text consists of, without scanning it, and `strtol_eq` that `strtol`
finds them. -/

namespace Chaining.Settings.Units

open Chaining.Outcome
open Chaining.Http.Response (Bytes bytes)
open Chaining.Net.Inet (isspace isdigit decimal Decimal isspace_of_isdigit ne_of_isdigit)

/-! ### The number scanner -/

def LONG_MAX : ℤ := 9223372036854775807

def LONG_MIN : ℤ := -9223372036854775808

def ERANGE : ℤ := 34

/-- A number that a `long` holds, the nearest one. -/
def clamp (v : ℤ) : ℤ := max LONG_MIN (min v LONG_MAX)

/-- The sign in front of a text. -/
def signOf : Bytes → Bytes
  | 43 :: _ => [43]
  | 45 :: _ => [45]
  | _ => []

/-- The number that a sign and digits write. -/
def signed (sign : Bytes) (n : ℕ) : ℤ := if sign = [45] then -(n : ℤ) else n

/-- What is at the front of a text: white space, a sign and digits, any of which may be missing. -/
structure Subject where
  space : Bytes
  sign : Bytes
  digits : Bytes

namespace Subject

def of (s : Bytes) : Subject :=
  let space := s.takeWhile isspace
  let sign := signOf (s.drop space.length)
  let digits := (s.drop (space.length + sign.length)).takeWhile isdigit
  ⟨space, sign, digits⟩

variable (x : Subject)

def value : ℤ := signed x.sign (decimal x.digits)

def length : ℕ := x.space.length + x.sign.length + x.digits.length

end Subject

/-- What `strtol` gives: the value, how far it has read, and what it leaves in `errno`. -/
structure Strtol where
  value : ℤ
  numEnd : ℕ
  errno : ℤ

/-- `strtol` in base 10. Without a digit nothing is read. -/
def strtol (errno : ℤ) (s : Bytes) : Strtol :=
  let x := Subject.of s
  if x.digits = [] then ⟨0, 0, errno⟩
  else ⟨clamp x.value, x.length, if clamp x.value = x.value then errno else ERANGE⟩

/-! ### The conversion -/

/-- What is thrown. -/
inductive Thrown where
  | runtimeError (what : Bytes)
  | outOfRange

/-- `GetErrorMsg`, in a function of this name; `strerror` answers `none` for a null pointer. -/
def errorMsg (strerror : ℤ → Option Bytes) (func : Bytes) (err : ℤ) : Bytes :=
  func ++ bytes ": " ++ (strerror err).getD (bytes "Unknown")

def unitMap : List (Bytes × ℕ) :=
  [(bytes "B", 1), (bytes "KB", 1024), (bytes "MB", 1024 * 1024),
    (bytes "GB", 1024 * 1024 * 1024)]

/-- `unitMap.at`. -/
def unitMapAt (unit : Bytes) : Except Thrown ℕ :=
  match unitMap.lookup unit with
  | some factor => .ok factor
  | none => .error .outOfRange

/-- A `long` as a `size_t`. -/
def toSize (x : ℤ) : ℕ := (x % 18446744073709551616).toNat

/-- A product of two of `size_t`. -/
def sizeMul (a b : ℕ) : ℕ := a * b % 18446744073709551616

/-- `GetUnitConversionValue`, when `errno` was this before. -/
def GetUnitConversionValue (strerror : ℤ → Option Bytes) (errno : ℤ) (capacity : Bytes) :
    Except Thrown ℕ :=
  if capacity = [] then unitMapAt (bytes "MB")
  else
    let r := strtol errno capacity
    if r.value = -1 then
      .error (.runtimeError (bytes "GetUnitConversionValue Error: " ++
        errorMsg strerror (bytes "GetUnitConversionValue") r.errno))
    else do
      let unit := capacity.drop r.numEnd
      let unit := if unit = [] ∨ unitMap.lookup unit = none then bytes "MB" else unit
      let exposeFactor ← unitMapAt unit
      return sizeMul (toSize r.value) exposeFactor

/-! ### The number and the unit of a text -/

/-- **The text is the number `v`, as a mathematical integer, and the unit**: white space, a sign or
none, digits, and a unit that does not begin with another digit. -/
inductive Reads : Bytes → ℤ → Bytes → Prop
  | intro {space sign digits unit : Bytes} {n : ℕ} (hspace : ∀ c ∈ space, isspace c = true)
      (hsign : sign = [] ∨ sign = [43] ∨ sign = [45]) (hdigits : Decimal digits n)
      (hunit : ∀ c ∈ unit.head?, isdigit c = false) :
      Reads (space ++ (sign ++ (digits ++ unit))) (signed sign n) unit

/-- What a unit stands for; other units are megabytes. -/
def factor (unit : Bytes) : ℕ :=
  if unit = bytes "B" then 1
  else if unit = bytes "KB" then 1024
  else if unit = bytes "GB" then 1024 * 1024 * 1024
  else 1024 * 1024

/-! ### What the scanner finds -/

section TakeWhile
variable {p : UInt8 → Bool} {l r : Bytes}

/-- Where scanning stops. -/
theorem takeWhile_append (hl : ∀ c ∈ l, p c = true) (hr : ∀ c ∈ r.head?, p c = false) :
    (l ++ r).takeWhile p = l := by
  have hnil : r.takeWhile p = [] := by
    cases r with
    | nil => rfl
    | cons c r => exact List.takeWhile_cons_of_neg (by simp [hr c rfl])
  rw [List.takeWhile_append_of_pos hl, hnil, List.append_nil]

theorem head?_dropWhile (l : Bytes) : ∀ c ∈ (l.dropWhile p).head?, p c = false := by
  intro c hc
  have hnot := List.head?_dropWhile_not p l
  rw [Option.mem_def.mp hc] at hnot
  exact hnot

theorem drop_length_takeWhile (l : Bytes) : l.drop (l.takeWhile p).length = l.dropWhile p := by
  have h := congrArg (List.drop (l.takeWhile p).length) (l.takeWhile_append_dropWhile (p := p))
  rw [List.drop_left] at h
  exact h.symm

end TakeWhile

/-- What follows the white space begins with a sign or a digit. -/
theorem isspace_head {sign digits unit : Bytes} {n : ℕ}
    (hsign : sign = [] ∨ sign = [43] ∨ sign = [45]) (hdigits : Decimal digits n) :
    ∀ c ∈ (sign ++ (digits ++ unit)).head?, isspace c = false := by
  obtain ⟨d, ds, rfl⟩ := List.exists_cons_of_ne_nil hdigits.ne_nil
  have hd : isdigit d = true := List.all_eq_true.mp hdigits.digit d List.mem_cons_self
  rintro c hc
  rcases hsign with rfl | rfl | rfl <;> cases hc
  · exact isspace_of_isdigit hd
  · decide
  · decide

/-- The sign is found. -/
theorem signOf_append {sign digits unit : Bytes} {n : ℕ}
    (hsign : sign = [] ∨ sign = [43] ∨ sign = [45]) (hdigits : Decimal digits n) :
    signOf (sign ++ (digits ++ unit)) = sign := by
  rcases hsign with rfl | rfl | rfl
  · obtain ⟨d, ds, rfl⟩ := List.exists_cons_of_ne_nil hdigits.ne_nil
    have hd : isdigit d = true := List.all_eq_true.mp hdigits.digit d List.mem_cons_self
    have hplus : d ≠ 43 := ne_of_isdigit hd (by decide)
    have hminus : d ≠ 45 := ne_of_isdigit hd (by decide)
    unfold signOf
    split
    · next heq => exact absurd (List.cons.inj heq).1 hplus
    · next heq => exact absurd (List.cons.inj heq).1 hminus
    · rfl
  · rfl
  · rfl

/-- **The scanner finds what a text consists of.** -/
theorem subject_eq {space sign digits unit : Bytes} {n : ℕ} (hspace : ∀ c ∈ space, isspace c = true)
    (hsign : sign = [] ∨ sign = [43] ∨ sign = [45]) (hdigits : Decimal digits n)
    (hunit : ∀ c ∈ unit.head?, isdigit c = false) :
    Subject.of (space ++ (sign ++ (digits ++ unit))) = ⟨space, sign, digits⟩ := by
  have htake : (space ++ (sign ++ (digits ++ unit))).takeWhile isspace = space :=
    takeWhile_append hspace (isspace_head hsign hdigits)
  have hdrop : (space ++ (sign ++ (digits ++ unit))).drop (space.length + sign.length) =
      digits ++ unit := by
    rw [← List.append_assoc, List.drop_left' (List.length_append)]
  have hds : (digits ++ unit).takeWhile isdigit = digits :=
    takeWhile_append (fun c hc => List.all_eq_true.mp hdigits.digit c hc) hunit
  unfold Subject.of
  simp only [htake, List.drop_left, signOf_append hsign hdigits, hdrop, hds]

theorem signOf_cases (t : Bytes) :
    (signOf t = [] ∨ signOf t = [43] ∨ signOf t = [45]) ∧ t = signOf t ++ t.drop (signOf t).length := by
  unfold signOf
  split <;> simp

/-- A text in which the scanner finds digits has a number. -/
theorem exists_reads {s : Bytes} (h : (Subject.of s).digits ≠ []) : ∃ v unit, Reads s v unit := by
  obtain ⟨hsign, hsplit⟩ := signOf_cases (s.dropWhile isspace)
  have hof : (Subject.of s).digits =
      ((s.dropWhile isspace).drop (signOf (s.dropWhile isspace)).length).takeWhile isdigit := by
    unfold Subject.of
    dsimp only
    rw [drop_length_takeWhile, ← List.drop_drop, drop_length_takeWhile]
  rw [hof] at h
  have htext := s.takeWhile_append_dropWhile (p := isspace)
  rw [hsplit, ← ((s.dropWhile isspace).drop _).takeWhile_append_dropWhile (p := isdigit)] at htext
  rw [← htext]
  refine ⟨_, _, .intro (fun c hc => List.mem_takeWhile_imp hc) hsign ⟨h, ?_, rfl⟩ ?_⟩
  · exact List.all_eq_true.mpr fun c hc => List.mem_takeWhile_imp hc
  · exact head?_dropWhile _

/-! ### What the conversion comes to -/

/-- **`strtol` reads the number**, clamps it and stops at the unit; within a `long` it leaves `errno`
as it is. -/
theorem strtol_eq (errno : ℤ) {text unit : Bytes} {v : ℤ} (h : Reads text v unit) :
    (strtol errno text).value = clamp v ∧ text.drop (strtol errno text).numEnd = unit ∧
      (clamp v = v → (strtol errno text).errno = errno) := by
  cases h with
  | @intro space sign digits unit n hspace hsign hdigits hunit =>
    have hvalue : Subject.value ⟨space, sign, digits⟩ = signed sign n := by
      unfold Subject.value
      rw [hdigits.value]
    have hdrop : (space ++ (sign ++ (digits ++ unit))).drop
        (Subject.length ⟨space, sign, digits⟩) = unit := by
      rw [← List.append_assoc, ← List.append_assoc]
      exact List.drop_left' (by simp [Subject.length, Nat.add_assoc])
    unfold strtol
    rw [subject_eq hspace hsign hdigits hunit]
    dsimp only
    rw [if_neg hdigits.ne_nil, hvalue]
    exact ⟨rfl, hdrop, fun hclamp => if_pos hclamp⟩

/-- The map and its fallback. -/
theorem unitMapAt_eq (unit : Bytes) :
    unitMapAt (if unit = [] ∨ unitMap.lookup unit = none then bytes "MB" else unit) =
      .ok (factor unit) := by
  by_cases hB : unit = bytes "B"
  · rw [hB]; rfl
  by_cases hKB : unit = bytes "KB"
  · rw [hKB]; rfl
  by_cases hMB : unit = bytes "MB"
  · rw [hMB]; rfl
  by_cases hGB : unit = bytes "GB"
  · rw [hGB]; rfl
  have hnone : unitMap.lookup unit = none := by
    rw [List.lookup_eq_none_iff]
    simp [unitMap, hB, hKB, hMB, hGB]
  rw [if_pos (Or.inr hnone)]
  unfold factor
  rw [if_neg hB, if_neg hKB, if_neg hGB]
  rfl

theorem factor_cases (unit : Bytes) : factor unit = 1 ∨ factor unit = 1024 ∨
    factor unit = 1048576 ∨ factor unit = 1073741824 := by
  unfold factor
  split_ifs <;> simp

variable (strerror : ℤ → Option Bytes) (errno : ℤ)

/-- The empty text is the default. -/
theorem conversion_nil : GetUnitConversionValue strerror errno [] = .ok 1048576 := rfl

/-- **The conversion** throws if the clamped number is `-1`, and multiplies otherwise. -/
theorem conversion_eq {text unit : Bytes} {v : ℤ} (h : Reads text v unit) :
    GetUnitConversionValue strerror errno text =
      if clamp v = -1 then .error (.runtimeError (bytes "GetUnitConversionValue Error: " ++
        errorMsg strerror (bytes "GetUnitConversionValue") errno))
      else .ok (sizeMul (toSize (clamp v)) (factor unit)) := by
  obtain ⟨hvalue, hunit, herrno⟩ := strtol_eq errno h
  have hne : text ≠ [] := by
    cases h with
    | intro hspace hsign hdigits hunit => simp [hdigits.ne_nil]
  unfold GetUnitConversionValue
  rw [if_neg hne]
  dsimp only
  rw [hvalue, hunit, unitMapAt_eq]
  split_ifs with hthrow
  · have hsame : clamp v = v := by
      unfold clamp LONG_MIN LONG_MAX at *
      omega
    rw [herrno hsame]
  · rfl

/-- Without a number the value is zero. -/
theorem conversion_of_not_reads {text : Bytes} (hne : text ≠ [])
    (h : ¬ ∃ v unit, Reads text v unit) : GetUnitConversionValue strerror errno text = .ok 0 := by
  have hdigits : (Subject.of text).digits = [] := by
    by_contra hd
    exact h (exists_reads hd)
  have hscan : strtol errno text = ⟨0, 0, errno⟩ := if_pos hdigits
  unfold GetUnitConversionValue
  rw [if_neg hne, hscan]
  dsimp only
  rw [if_neg (by decide), unitMapAt_eq]
  simp [sizeMul, toSize]

end Chaining.Settings.Units
