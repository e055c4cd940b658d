import Chaining.Http.Response
import Mathlib.Data.Int.Notation
import Mathlib.Data.List.Basic
import Mathlib.Data.List.TakeWhile

/-! # Addresses from texts

An `InetAddr` is a type and the storage of a socket address. Two of its constructors take a text: one
an IP address, the other an address and a port, which it takes apart at the last colon. What they
make of it is up to `inet_pton`, which answers `1` and writes the address, or `0` and writes nothing
for a text that is no address, or `-1` for a family that it does not know; and to `atoi`.

A view is followed by a NUL, and its C text ends at its first NUL. Positions are of type `size_t`,
whose sums and differences are taken by `2 ^ 64`. -/

namespace Chaining.Net.Inet

open Chaining.Http.Response (Bytes)

/-- How a constructor ends other than by returning. -/
inductive Failure where
  | assertFailed
  | terminated
  | exited
  | outOfRange
  deriving DecidableEq

/-! ### Views -/

/-- The largest `size_t`, which stands for no position. -/
def npos : ℕ := 18446744073709551615

/-- `std::string_view`. -/
structure StringView where
  toList : Bytes
  size_lt : toList.length < npos

/-- A sum of two of `size_t`. -/
def sizeAdd (a b : ℕ) : ℕ := (a + b) % 18446744073709551616

/-- A difference of two of `size_t`. -/
def sizeSub (a b : ℕ) : ℕ := (a + 18446744073709551616 - b) % 18446744073709551616

namespace StringView

variable (s : StringView)

/-- The first position of a character. -/
def find (c : UInt8) : ℕ := if c ∈ s.toList then s.toList.idxOf c else npos

/-- The last position of a character. -/
def findLastOf (c : UInt8) : ℕ :=
  if c ∈ s.toList then s.toList.length - 1 - s.toList.reverse.idxOf c else npos

def substr (pos n : ℕ) : Except Failure StringView :=
  if pos > s.toList.length then .error .outOfRange
  else .ok {
    toList := (s.toList.drop pos).take n
    size_lt := by
      have h := s.size_lt
      rw [List.length_take, List.length_drop]
      omega }

end StringView

/-! ### What the C library reads -/

/-- The C text at the beginning of a view. -/
def cstr (s : StringView) : Bytes := s.toList.takeWhile (· ≠ 0)

def isspace (c : UInt8) : Bool := c = 32 || 9 ≤ c && c ≤ 13

def isdigit (c : UInt8) : Bool := 48 ≤ c && c ≤ 57

/-- The number that decimal digits write. -/
def decimal (digits : Bytes) : ℕ := digits.foldl (fun n d => 10 * n + (d.toNat - 48)) 0

/-- `atoi`. What does not fit an `int`, for which its behaviour is undefined, is left as it is. -/
def atoi (s : Bytes) : ℤ :=
  match s.dropWhile isspace with
  | 45 :: s => -(decimal (s.takeWhile isdigit) : ℤ)
  | 43 :: s => decimal (s.takeWhile isdigit)
  | s => decimal (s.takeWhile isdigit)

/-- An `int` assigned to a `uint16_t`. -/
def toPort (x : ℤ) : UInt16 := UInt16.ofNat (x % 65536).toNat

/-- The port in network byte order. -/
def htons (port : UInt16) : UInt16 := port <<< 8 ||| port >>> 8

/-- What `inet_pton` answers: `1`, `0` or `-1`. -/
inductive Answer (α : Type) where
  | accepted (addr : α)
  | rejected
  | unsupported

/-- Of a family that is known, a text is accepted or rejected. -/
theorem Answer.supported_cases {α : Type} {a : Answer α} (h : a ≠ .unsupported) :
    (∃ addr, a = .accepted addr) ∨ a = .rejected := by
  cases a with
  | accepted addr => exact Or.inl ⟨addr, rfl⟩
  | rejected => exact Or.inr rfl
  | unsupported => exact absurd rfl h

/-- **`inet_pton`**, a function of the family and the text. It knows both families, and the empty text
is no address of `AF_INET`. -/
structure InetPton where
  v4 : Bytes → Answer (BitVec 32)
  v6 : Bytes → Answer (BitVec 128)
  supported4 : ∀ s, v4 s ≠ .unsupported
  supported6 : ∀ s, v6 s ≠ .unsupported
  rejects_nil : v4 [] = .rejected

/-! ### The object -/

inductive InetType where
  | IPv4
  | IPv6
  deriving DecidableEq

def AF_INET : UInt16 := 2

def AF_INET6 : UInt16 := 10

/-- `sockaddr_storage`: the fields of `sockaddr_in` and `sockaddr_in6`, which have the first two in
common. -/
structure SockaddrStorage where
  family : UInt16
  port : UInt16
  sinAddr : BitVec 32
  sin6Addr : BitVec 128

structure InetAddr where
  ss : SockaddrStorage
  type : InetType

namespace InetAddr

variable (inetPton : InetPton) (junk : SockaddrStorage)

/-- The branch for IPv4 of the two constructors, in memory that held `junk`; `failure` is where it
goes when `inet_pton` answers `-1`. -/
def setIPv4 (failure : Failure) (ip : StringView) (port : UInt16) : Except Failure InetAddr :=
  let ss := { junk with family := AF_INET, port := htons port }
  match inetPton.v4 (cstr ip) with
  | .unsupported => .error failure
  | .rejected => .ok { ss := ss, type := .IPv4 }
  | .accepted addr => .ok { ss := { ss with sinAddr := addr }, type := .IPv4 }

/-- The branch for IPv6. -/
def setIPv6 (failure : Failure) (ip : StringView) (port : UInt16) : Except Failure InetAddr :=
  let ss := { junk with family := AF_INET6, port := htons port }
  match inetPton.v6 (cstr ip) with
  | .unsupported => .error failure
  | .rejected => .ok { ss := ss, type := .IPv6 }
  | .accepted addr => .ok { ss := { ss with sin6Addr := addr }, type := .IPv6 }

/-- `InetAddr(ip, port, type)`. -/
def fromIpPort (ip : StringView) (port : UInt16) : InetType → Except Failure InetAddr
  | .IPv4 => setIPv4 inetPton junk .terminated ip port
  | .IPv6 => setIPv6 inetPton junk .exited ip port

/-- `InetAddr(domain, type)`. -/
def fromText (domain : StringView) (type : InetType) : Except Failure InetAddr := do
  let lastColon := domain.findLastOf 58
  match type with
  | .IPv4 =>
    let ip ← domain.substr 0 (sizeSub lastColon 1)
    let port := toPort (atoi (← domain.substr (sizeAdd lastColon 1) npos).toList)
    setIPv4 inetPton junk .terminated ip port
  | .IPv6 =>
    let rightBracket := domain.find 93
    if ¬ rightBracket < lastColon then .error .assertFailed
    else
      let ip ← domain.substr 1 (sizeSub lastColon 2)
      let port := toPort (atoi (← domain.substr (sizeAdd lastColon 1) npos).toList)
      setIPv6 inetPton junk .terminated ip port

end InetAddr

/-! ### Digits -/

/-- The digits write the number. -/
structure Decimal (digits : Bytes) (n : ℕ) : Prop where
  ne_nil : digits ≠ []
  digit : digits.all isdigit = true
  value : decimal digits = n

variable {digits : Bytes} {n : ℕ}

theorem isdigit_bounds {c : UInt8} (h : isdigit c = true) : 48 ≤ c.toNat ∧ c.toNat ≤ 57 := by
  unfold isdigit at h
  rw [Bool.and_eq_true, decide_eq_true_eq, decide_eq_true_eq, UInt8.le_iff_toNat_le,
    UInt8.le_iff_toNat_le] at h
  exact h

theorem ne_of_isdigit {c : UInt8} (h : isdigit c = true) {k : UInt8} (hk : isdigit k = false) :
    c ≠ k := by
  rintro rfl
  rw [hk] at h
  cases h

/-- A digit is no white space. -/
theorem isspace_of_isdigit {c : UInt8} (h : isdigit c = true) : isspace c = false := by
  have hb := isdigit_bounds h
  unfold isspace
  simp only [Bool.or_eq_false_iff, Bool.and_eq_false_iff, decide_eq_false_iff_not,
    UInt8.le_iff_toNat_le]
  refine ⟨ne_of_isdigit h (by decide), Or.inr ?_⟩
  have h13 : (13 : UInt8).toNat = 13 := rfl
  omega

theorem Decimal.notMem (h : Decimal digits n) {k : UInt8} (hk : isdigit k = false) : k ∉ digits :=
  fun hmem => ne_of_isdigit (List.all_eq_true.mp h.digit k hmem) hk rfl

/-- **`atoi` reads the digits.** -/
theorem atoi_eq (h : Decimal digits n) : atoi digits = n := by
  obtain ⟨d, ds, rfl⟩ := List.exists_cons_of_ne_nil h.ne_nil
  have hd : isdigit d = true := List.all_eq_true.mp h.digit d List.mem_cons_self
  have hspace : isspace d = false := isspace_of_isdigit hd
  have htake : (d :: ds).takeWhile isdigit = d :: ds :=
    List.takeWhile_eq_self_iff.mpr fun c hc => List.all_eq_true.mp h.digit c hc
  unfold atoi
  rw [List.dropWhile_cons_of_neg (by simp [hspace])]
  split
  case h_1 heq => exact absurd (List.cons.inj heq).1 (ne_of_isdigit hd (by decide))
  case h_2 heq => exact absurd (List.cons.inj heq).1 (ne_of_isdigit hd (by decide))
  case h_3 => rw [htake, h.value]

theorem toPort_atoi {port : UInt16} (h : Decimal digits port.toNat) : toPort (atoi digits) = port := by
  have hlt := port.toNat_lt
  have hmod : ((port.toNat : ℤ) % 65536).toNat = port.toNat := by omega
  rw [atoi_eq h, toPort, hmod, UInt16.ofNat_toNat]

/-! ### Positions -/

variable {s : StringView} {c : UInt8} {a b : Bytes}

theorem cstr_eq (h : 0 ∉ s.toList) : cstr s = s.toList :=
  List.takeWhile_eq_self_iff.mpr fun _ hx => decide_eq_true fun h0 => h (h0 ▸ hx)

/-- The last position of a character is the one with no other behind it. -/
theorem findLastOf_eq (hs : s.toList = a ++ c :: b) (hc : c ∉ b) : s.findLastOf c = a.length := by
  have hrev : s.toList.reverse.idxOf c = b.length := by
    rw [hs, List.reverse_append, List.reverse_cons, List.append_assoc,
      List.idxOf_append_of_notMem (by simpa using hc)]
    simp
  have hmem : c ∈ s.toList := by simp [hs]
  unfold StringView.findLastOf
  rw [if_pos hmem, hrev, hs]
  simp only [List.length_append, List.length_cons]
  omega

/-- The first position of a character is no later than any. -/
theorem find_le (hs : s.toList = a ++ c :: b) : s.find c ≤ a.length := by
  have hmem : c ∈ s.toList := by simp [hs]
  unfold StringView.find
  rw [if_pos hmem, hs]
  by_cases ha : c ∈ a
  · rw [List.idxOf_append_of_mem ha]
    exact (List.idxOf_lt_length_of_mem ha).le
  · rw [List.idxOf_append_of_notMem ha]
    simp

theorem substr_ok (s : StringView) (pos n : ℕ) (h : pos ≤ s.toList.length) :
    ∃ t, s.substr pos n = .ok t ∧ t.toList = (s.toList.drop pos).take n := by
  unfold StringView.substr
  rw [if_neg (by omega)]
  exact ⟨_, rfl, rfl⟩

/-- The text behind a position, up to the end. -/
theorem substr_rest (pos : ℕ) (hs : s.toList = a ++ b) (hpos : pos = a.length) :
    ∃ t, s.substr pos npos = .ok t ∧ t.toList = b := by
  have hlen := s.size_lt
  obtain ⟨t, ht, htl⟩ := substr_ok s pos npos (by
    rw [hs, List.length_append]
    omega)
  refine ⟨t, ht, ?_⟩
  rw [htl, hs, hpos, List.drop_left, List.take_of_length_le]
  rw [hs, List.length_append] at hlen
  omega

end Chaining.Net.Inet
