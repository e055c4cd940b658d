import Chaining.Net.Inet

/-! # The textual constructors of an address

For IPv4 the constructor that takes one text ends the slice of the address one character early, so
that `inet_pton` is given the address without its last character; for IPv6 the slice is right. And
no constructor looks at the answer `0`, at what follows the digits of the port or at its size: a
text that is no address is taken all the same, and the address stays what was in memory.

`agree_iff` says when the two constructors hold the same for one address and port, and
`wellFormed_iff` for which texts a constructor that returns has been given an address. -/

namespace Chaining.Net.Address

open Chaining.Outcome
open Chaining.Http.Response (Bytes bytes)
open Chaining.Net.Inet Chaining.Net.Inet.InetAddr

/-! ### What is owed -/

/-- The address that is held, of the one family or the other. -/
def address (x : InetAddr) : BitVec 32 ⊕ BitVec 128 :=
  match x.type with
  | .IPv4 => .inl x.ss.sinAddr
  | .IPv6 => .inr x.ss.sin6Addr

/-- The same family, address and port. -/
structure Same (x y : InetAddr) : Prop where
  type : x.type = y.type
  family : x.ss.family = y.ss.family
  port : x.ss.port = y.ss.port
  address : address x = address y

/-- The text of an address and a port. -/
def ipPort : InetType → Bytes → Bytes → Bytes
  | .IPv4, ip, digits => ip ++ 58 :: digits
  | .IPv6, ip, digits => 91 :: (ip ++ 93 :: 58 :: digits)

variable (inetPton : InetPton)

/-- `inet_pton` accepts the text. -/
def Accepts : InetType → Bytes → Prop
  | .IPv4, s => ∃ addr, inetPton.v4 s = .accepted addr
  | .IPv6, s => ∃ addr, inetPton.v6 s = .accepted addr

/-- **The two constructors agree**, whatever was in memory. -/
def Agree (text ip : StringView) (port : UInt16) (type : InetType) : Prop :=
  ∀ junk junk', ∃ x y, fromText inetPton junk text type = .ok x ∧
    fromIpPort inetPton junk' ip port type = .ok y ∧ Same x y

/-- The text is an address that `inet_pton` accepts, bracketed for IPv6, a colon and the decimal port,
and nothing else. -/
def WellFormed (type : InetType) (text : Bytes) (port : UInt16) : Prop :=
  ∃ ip digits, text = ipPort type ip digits ∧ 0 ∉ ip ∧ Accepts inetPton type ip ∧
    Decimal digits port.toNat

/-- **The constructor accepts no malformed text**: if it returns, the text is well-formed, the port is
the one written there and the address does not depend on what was in memory. -/
def TextChecked (text : StringView) (type : InetType) : Prop :=
  ∃ addr port, ∀ junk x, fromText inetPton junk text type = .ok x →
    WellFormed inetPton type text.toList port ∧ x.ss.port = htons port ∧ address x = addr

/-- The same of the constructor that takes an address and a port. -/
def IpChecked (ip : StringView) (port : UInt16) (type : InetType) : Prop :=
  ∃ addr, ∀ junk x, fromIpPort inetPton junk ip port type = .ok x →
    Accepts inetPton type (cstr ip) ∧ x.ss.port = htons port ∧ address x = addr

variable {inetPton} {junk : SockaddrStorage} {ip text : StringView} {port : UInt16}
  {digits l : Bytes} {failure : Failure}

/-! ### Writing the address -/

theorem setIPv4_accepted {addr : BitVec 32} (h : inetPton.v4 (cstr ip) = .accepted addr) :
    setIPv4 inetPton junk failure ip port = .ok {
      ss := { junk with family := AF_INET, port := htons port, sinAddr := addr }
      type := .IPv4 } := by
  unfold setIPv4
  rw [h]

theorem setIPv4_rejected (h : inetPton.v4 (cstr ip) = .rejected) :
    setIPv4 inetPton junk failure ip port = .ok {
      ss := { junk with family := AF_INET, port := htons port }
      type := .IPv4 } := by
  unfold setIPv4
  rw [h]

theorem setIPv6_accepted {addr : BitVec 128} (h : inetPton.v6 (cstr ip) = .accepted addr) :
    setIPv6 inetPton junk failure ip port = .ok {
      ss := { junk with family := AF_INET6, port := htons port, sin6Addr := addr }
      type := .IPv6 } := by
  unfold setIPv6
  rw [h]

theorem setIPv6_rejected (h : inetPton.v6 (cstr ip) = .rejected) :
    setIPv6 inetPton junk failure ip port = .ok {
      ss := { junk with family := AF_INET6, port := htons port }
      type := .IPv6 } := by
  unfold setIPv6
  rw [h]

/-- The empty text is no address. -/
theorem ne_nil_of_accepts (h : Accepts inetPton .IPv4 l) : l ≠ [] := by
  rintro rfl
  obtain ⟨addr, ha⟩ := h
  rw [inetPton.rejects_nil] at ha
  cases ha

/-! ### The slices -/

theorem sizeSub_eq {a b : ℕ} (h : b ≤ a) (ha : a < npos) : sizeSub a b = a - b := by
  unfold sizeSub npos at *
  omega

theorem sizeAdd_eq {a b : ℕ} (h : a + b ≤ npos) : sizeAdd a b = a + b := by
  unfold sizeAdd npos at *
  omega

/-- **The IPv4 slice** lacks the last character of the address. -/
theorem fromText_IPv4 (inetPton : InetPton) (htext : text.toList = ipPort .IPv4 l digits) (hl : l ≠ [])
    (hport : Decimal digits port.toNat) :
    ∃ v : StringView, v.toList = l.dropLast ∧ ∀ junk,
      fromText inetPton junk text .IPv4 = setIPv4 inetPton junk .terminated v port := by
  have hlen := text.size_lt
  have hpos := List.length_pos_of_ne_nil hl
  have htext' : text.toList = l ++ 58 :: digits := htext
  have hsplit : text.toList = (l ++ [58]) ++ digits := by simp [htext']
  have hcolon := findLastOf_eq htext' (hport.notMem (by decide))
  rw [htext', List.length_append, List.length_cons] at hlen
  obtain ⟨v, hv, hvl⟩ := substr_ok text 0 (l.length - 1) (Nat.zero_le _)
  obtain ⟨d, hd, hdl⟩ := substr_rest (l.length + 1) hsplit (by simp)
  refine ⟨v, ?_, fun junk => ?_⟩
  · rw [hvl, htext', List.drop_zero, List.take_append_of_le_length (by omega), List.dropLast_eq_take]
  · unfold fromText
    dsimp only
    rw [hcolon, sizeSub_eq hpos (by omega), sizeAdd_eq (by omega), hv, hd]
    simp only [ok_bind, hdl, toPort_atoi hport]

/-- **The IPv6 slice** is the address. -/
theorem fromText_IPv6 (inetPton : InetPton) (htext : text.toList = ipPort .IPv6 l digits)
    (hport : Decimal digits port.toNat) :
    ∃ v : StringView, v.toList = l ∧ ∀ junk,
      fromText inetPton junk text .IPv6 = setIPv6 inetPton junk .terminated v port := by
  have hlen := text.size_lt
  have htext' : text.toList = (91 :: l ++ [93]) ++ 58 :: digits := by simp [htext, ipPort]
  have hsplit : text.toList = (91 :: l ++ [93] ++ [58]) ++ digits := by simp [htext, ipPort]
  have hbracket : text.find 93 ≤ (91 :: l).length := find_le (b := 58 :: digits) (by
    simp [htext, ipPort])
  have hcolon : text.findLastOf 58 = l.length + 2 := by
    rw [findLastOf_eq htext' (hport.notMem (by decide))]
    simp
  rw [htext', List.length_append] at hlen
  simp only [List.length_append, List.length_cons, List.length_nil] at hlen hbracket
  obtain ⟨v, hv, hvl⟩ := substr_ok text 1 l.length (by simp [htext, ipPort])
  obtain ⟨d, hd, hdl⟩ := substr_rest (l.length + 2 + 1) hsplit (by simp)
  refine ⟨v, ?_, fun junk => ?_⟩
  · simp [hvl, htext, ipPort]
  · have hsub : sizeSub (l.length + 2) 2 = l.length := by
      rw [sizeSub_eq (by omega) (by omega), Nat.add_sub_cancel]
    unfold fromText
    dsimp only
    rw [hcolon, if_neg (by omega), hsub, sizeAdd_eq (by omega), hv, hd]
    simp only [ok_bind, hdl, toPort_atoi hport]

/-! ### Agreement -/

/-- Two memories that held different addresses. -/
def zeros : SockaddrStorage := ⟨0, 0, 0, 0⟩

def ones : SockaddrStorage := ⟨0, 0, 1, 1⟩

/-- **When the two constructors agree.** Given an address that `inet_pton` accepts and a decimal port,
they hold the same for IPv6; for IPv4 they do if and only if `inet_pton` accepts the address
without its last character as the same one. -/
theorem agree_iff (type : InetType) (hip : Accepts inetPton type ip.toList) (h0 : 0 ∉ ip.toList)
    (hport : Decimal digits port.toNat) (htext : text.toList = ipPort type ip.toList digits) :
    Agree inetPton text ip port type ↔
      (type = .IPv4 → inetPton.v4 ip.toList.dropLast = inetPton.v4 ip.toList) := by
  have hc := cstr_eq h0
  cases type with
  | IPv4 =>
    have hl := ne_nil_of_accepts hip
    obtain ⟨addr, haddr⟩ := hip
    obtain ⟨v, hv, hfrom⟩ := fromText_IPv4 inetPton htext hl hport
    have hcv : cstr v = ip.toList.dropLast := by
      rw [← hv]
      exact cstr_eq fun hmem => h0 (List.dropLast_subset _ (hv ▸ hmem))
    have hy : ∀ junk, fromIpPort inetPton junk ip port .IPv4 = .ok {
        ss := { junk with family := AF_INET, port := htons port, sinAddr := addr }
        type := .IPv4 } := fun junk => setIPv4_accepted (hc ▸ haddr)
    rw [haddr]
    constructor
    · intro h _
      rcases Answer.supported_cases (inetPton.supported4 ip.toList.dropLast) with ⟨addr', haddr'⟩ | hrej
      · obtain ⟨x, y, hx, hy', hs⟩ := h zeros zeros
        rw [hfrom, setIPv4_accepted (hcv ▸ haddr')] at hx
        cases hx
        cases (hy zeros).symm.trans hy'
        have heq : addr' = addr := Sum.inl.inj hs.address
        rw [haddr', heq]
      · -- The address is what was in memory, and cannot be the right one in both.
        obtain ⟨x, y, hx, hy', hs⟩ := h zeros zeros
        obtain ⟨x', y', hx', hy'', hs'⟩ := h ones zeros
        rw [hfrom, setIPv4_rejected (hcv ▸ hrej)] at hx hx'
        cases hx
        cases hx'
        cases hy'.symm.trans hy''
        have hne : (0 : BitVec 32) = 1 := Sum.inl.inj (hs.address.trans hs'.address.symm)
        exact absurd hne (by decide)
    · intro h junk junk'
      refine ⟨_, _, (hfrom junk).trans (setIPv4_accepted (hcv ▸ h rfl)), hy junk', ?_⟩
      exact ⟨rfl, rfl, rfl, rfl⟩
  | IPv6 =>
    obtain ⟨addr, haddr⟩ := hip
    obtain ⟨v, hv, hfrom⟩ := fromText_IPv6 inetPton htext hport
    have hcv : cstr v = ip.toList := by rw [cstr_eq (by rwa [hv]), hv]
    refine iff_of_true (fun junk junk' => ?_) fun h => by cases h
    refine ⟨_, _, (hfrom junk).trans (setIPv6_accepted (hcv ▸ haddr)),
      setIPv6_accepted (hc ▸ haddr), ?_⟩
    exact ⟨rfl, rfl, rfl, rfl⟩

/-! ### Malformed texts -/

/-- The branch of a family, in any of the constructors. -/
def setIP (inetPton : InetPton) (junk : SockaddrStorage) (failure : Failure) (ip : StringView)
    (port : UInt16) : InetType → Except Failure InetAddr
  | .IPv4 => setIPv4 inetPton junk failure ip port
  | .IPv6 => setIPv6 inetPton junk failure ip port

/-- It returns, with the port. -/
theorem setIP_ok (inetPton : InetPton) (junk : SockaddrStorage) (failure : Failure) (ip : StringView)
    (port : UInt16) (type : InetType) :
    ∃ x, setIP inetPton junk failure ip port type = .ok x ∧ x.ss.port = htons port := by
  cases type with
  | IPv4 =>
    rcases Answer.supported_cases (inetPton.supported4 (cstr ip)) with ⟨addr, h⟩ | h
    · exact ⟨_, setIPv4_accepted h, rfl⟩
    · exact ⟨_, setIPv4_rejected h, rfl⟩
  | IPv6 =>
    rcases Answer.supported_cases (inetPton.supported6 (cstr ip)) with ⟨addr, h⟩ | h
    · exact ⟨_, setIPv6_accepted h, rfl⟩
    · exact ⟨_, setIPv6_rejected h, rfl⟩

/-- The address does not depend on what was in memory exactly if `inet_pton` accepts. -/
theorem setIP_address_iff (failure : Failure) (ip : StringView) (port : UInt16) (type : InetType) :
    (∃ addr, ∀ junk x, setIP inetPton junk failure ip port type = .ok x → address x = addr) ↔
      Accepts inetPton type (cstr ip) := by
  constructor
  · rintro ⟨addr, h⟩
    cases type with
    | IPv4 =>
      rcases Answer.supported_cases (inetPton.supported4 (cstr ip)) with hacc | hrej
      · exact hacc
      · have hne : (.inl 0 : BitVec 32 ⊕ BitVec 128) = .inl 1 :=
          (h zeros _ (setIPv4_rejected hrej)).trans (h ones _ (setIPv4_rejected hrej)).symm
        exact absurd (Sum.inl.inj hne) (by decide)
    | IPv6 =>
      rcases Answer.supported_cases (inetPton.supported6 (cstr ip)) with hacc | hrej
      · exact hacc
      · have hne : (.inr 0 : BitVec 32 ⊕ BitVec 128) = .inr 1 :=
          (h zeros _ (setIPv6_rejected hrej)).trans (h ones _ (setIPv6_rejected hrej)).symm
        exact absurd (Sum.inr.inj hne) (by decide)
  · intro h
    cases type with
    | IPv4 =>
      obtain ⟨addr, ha⟩ := h
      refine ⟨.inl addr, fun junk x hx => ?_⟩
      cases (setIPv4_accepted ha).symm.trans hx
      rfl
    | IPv6 =>
      obtain ⟨addr, ha⟩ := h
      refine ⟨.inr addr, fun junk x hx => ?_⟩
      cases (setIPv6_accepted ha).symm.trans hx
      rfl

/-- A constructor that goes into this branch is given an address exactly if `inet_pton` accepts. -/
theorem checked_iff {P : Prop} {f : SockaddrStorage → Except Failure InetAddr} {ip : StringView}
    {type : InetType} (hf : ∀ junk, f junk = setIP inetPton junk failure ip port type) :
    (∃ addr, ∀ junk x, f junk = .ok x → P ∧ x.ss.port = htons port ∧ address x = addr) ↔
      P ∧ Accepts inetPton type (cstr ip) := by
  rw [← setIP_address_iff failure ip port type]
  constructor
  · rintro ⟨addr, h⟩
    obtain ⟨x, hx, -⟩ := setIP_ok inetPton zeros failure ip port type
    exact ⟨(h zeros x ((hf zeros).trans hx)).1, addr, fun junk y hy =>
      (h junk y ((hf junk).trans hy)).2.2⟩
  · rintro ⟨hp, addr, h⟩
    refine ⟨addr, fun junk x hx => ?_⟩
    rw [hf] at hx
    obtain ⟨y, hy, hport⟩ := setIP_ok inetPton junk failure ip port type
    cases hx.symm.trans hy
    exact ⟨hp, hport, h junk x hx⟩

theorem findLastOf_lt_or (s : StringView) (c : UInt8) :
    s.findLastOf c < s.toList.length ∨ s.findLastOf c = npos := by
  unfold StringView.findLastOf
  split_ifs with h
  · have hpos := List.length_pos_of_mem h
    omega
  · exact Or.inr rfl

/-- What follows the last colon, or the whole text if there is none. -/
theorem substr_port (s : StringView) (c : UInt8) :
    ∃ t, s.substr (sizeAdd (s.findLastOf c) 1) npos = .ok t := by
  have hlen := s.size_lt
  have hle : sizeAdd (s.findLastOf c) 1 ≤ s.toList.length := by
    rcases findLastOf_lt_or s c with h | h
    · rw [sizeAdd_eq (by omega)]
      omega
    · rw [h]
      exact Nat.zero_le _
  obtain ⟨t, ht, -⟩ := substr_ok s _ npos hle
  exact ⟨t, ht⟩

/-- **Any text is taken** for IPv4: something in it for the address, and something for the port. -/
theorem fromText_IPv4_set (inetPton : InetPton) (text : StringView) : ∃ v port, ∀ junk,
    fromText inetPton junk text .IPv4 = setIPv4 inetPton junk .terminated v port := by
  obtain ⟨v, hv, -⟩ := substr_ok text 0 (sizeSub (text.findLastOf 58) 1) (Nat.zero_le _)
  obtain ⟨t, ht⟩ := substr_port text 58
  refine ⟨v, toPort (atoi t.toList), fun junk => ?_⟩
  unfold fromText
  dsimp only
  rw [hv, ht]
  rfl

/-- For IPv6 the same holds of any text that passes the `assert`. -/
theorem fromText_IPv6_set (inetPton : InetPton) {text : StringView}
    (h : text.find 93 < text.findLastOf 58) : ∃ v port, ∀ junk,
      fromText inetPton junk text .IPv6 = setIPv6 inetPton junk .terminated v port := by
  have hpos : 1 ≤ text.toList.length := by
    by_contra hnil
    have hempty : text.toList = [] := List.eq_nil_of_length_eq_zero (by omega)
    unfold StringView.find StringView.findLastOf at h
    rw [hempty] at h
    exact absurd h (by decide)
  obtain ⟨v, hv, -⟩ := substr_ok text 1 (sizeSub (text.findLastOf 58) 2) hpos
  obtain ⟨t, ht⟩ := substr_port text 58
  refine ⟨v, toPort (atoi t.toList), fun junk => ?_⟩
  unfold fromText
  dsimp only
  rw [if_neg (not_not.mpr h), hv, ht]
  rfl

/-- For IPv4: the text must be well-formed, and the slice accepted too. -/
theorem textChecked_IPv4_iff (inetPton : InetPton) (text : StringView) :
    TextChecked inetPton text .IPv4 ↔ ∃ ip digits, ∃ port : UInt16,
      text.toList = ipPort .IPv4 ip digits ∧ 0 ∉ ip ∧ Accepts inetPton .IPv4 ip ∧
        Decimal digits port.toNat ∧ Accepts inetPton .IPv4 ip.dropLast := by
  have hslice : ∀ {ip digits} {port : UInt16}, text.toList = ipPort .IPv4 ip digits → 0 ∉ ip →
      Accepts inetPton .IPv4 ip → Decimal digits port.toNat →
        ∃ v : StringView, cstr v = ip.dropLast ∧ ∀ junk, fromText inetPton junk text .IPv4 =
          setIP inetPton junk .terminated v port .IPv4 := by
    intro ip digits port htext h0 hacc hport
    obtain ⟨v, hv, hfrom⟩ := fromText_IPv4 inetPton htext (ne_nil_of_accepts hacc) hport
    refine ⟨v, ?_, hfrom⟩
    rw [← hv]
    exact cstr_eq fun hmem => h0 (List.dropLast_subset _ (hv ▸ hmem))
  constructor
  · rintro ⟨addr, port, h⟩
    obtain ⟨v, port', hset⟩ := fromText_IPv4_set inetPton text
    obtain ⟨x, hx, -⟩ := setIP_ok inetPton zeros .terminated v port' .IPv4
    obtain ⟨ip, digits, htext, h0, hacc, hport⟩ := (h zeros x ((hset zeros).trans hx)).1
    obtain ⟨w, hw, hfrom⟩ := hslice htext h0 hacc hport
    have hchecked := ((checked_iff hfrom).mp ⟨addr, h⟩).2
    exact ⟨ip, digits, port, htext, h0, hacc, hport, hw ▸ hchecked⟩
  · rintro ⟨ip, digits, port, htext, h0, hacc, hport, hdrop⟩
    obtain ⟨w, hw, hfrom⟩ := hslice htext h0 hacc hport
    obtain ⟨addr, h⟩ := (checked_iff (P := WellFormed inetPton .IPv4 text.toList port) hfrom).mpr
      ⟨⟨ip, digits, htext, h0, hacc, hport⟩, hw.symm ▸ hdrop⟩
    exact ⟨addr, port, h⟩

/-- For IPv6 the slice is accepted if the text is well-formed. -/
theorem textChecked_IPv6_iff (inetPton : InetPton) (text : StringView) :
    TextChecked inetPton text .IPv6 ↔ (∃ port, WellFormed inetPton .IPv6 text.toList port) ∨
      ¬ text.find 93 < text.findLastOf 58 := by
  constructor
  · rintro ⟨addr, port, h⟩
    by_cases hbracket : text.find 93 < text.findLastOf 58
    · obtain ⟨v, port', hset⟩ := fromText_IPv6_set inetPton hbracket
      obtain ⟨x, hx, -⟩ := setIP_ok inetPton zeros .terminated v port' .IPv6
      exact Or.inl ⟨port, (h zeros x ((hset zeros).trans hx)).1⟩
    · exact Or.inr hbracket
  · rintro (⟨port, hwf⟩ | hbracket)
    · obtain ⟨ip, digits, htext, h0, hacc, hport⟩ := id hwf
      obtain ⟨v, hv, hfrom⟩ := fromText_IPv6 inetPton htext hport
      have hcv : cstr v = ip := by rw [cstr_eq (by rwa [hv]), hv]
      have hset : ∀ junk, fromText inetPton junk text .IPv6 =
          setIP inetPton junk .terminated v port .IPv6 := hfrom
      obtain ⟨addr, h⟩ := (checked_iff hset).mpr ⟨hwf, hcv.symm ▸ hacc⟩
      exact ⟨addr, port, h⟩
    · refine ⟨.inr 0, 0, fun junk x hx => ?_⟩
      have herr : fromText inetPton junk text .IPv6 = .error .assertFailed := if_pos hbracket
      rw [herr] at hx
      cases hx

/-- **Which texts the constructors are right to take.** The one-text constructor never accepts a
malformed text if and only if: for IPv4 the text is well-formed, and still an address without
its last character; for IPv6 it is well-formed, or its first bracket is not in front of its last colon,
which the `assert` looks at. The other constructor needs an address that `inet_pton` accepts. -/
theorem wellFormed_iff (inetPton : InetPton) (text : StringView) :
    (TextChecked inetPton text .IPv4 ↔ ∃ ip digits, ∃ port : UInt16,
      text.toList = ipPort .IPv4 ip digits ∧ 0 ∉ ip ∧ Accepts inetPton .IPv4 ip ∧
        Decimal digits port.toNat ∧ Accepts inetPton .IPv4 ip.dropLast) ∧
      (TextChecked inetPton text .IPv6 ↔ (∃ port, WellFormed inetPton .IPv6 text.toList port) ∨
        ¬ text.find 93 < text.findLastOf 58) ∧
      ∀ (type : InetType) (port : UInt16),
        IpChecked inetPton text port type ↔ Accepts inetPton type (cstr text) := by
  refine ⟨textChecked_IPv4_iff inetPton text, textChecked_IPv6_iff inetPton text, ?_⟩
  intro type port
  unfold IpChecked
  cases type with
  | IPv4 =>
    have hset : ∀ junk, fromIpPort inetPton junk text port .IPv4 =
      setIP inetPton junk .terminated text port .IPv4 := fun _ => rfl
    exact (checked_iff hset).trans (and_self_iff)
  | IPv6 =>
    have hset : ∀ junk, fromIpPort inetPton junk text port .IPv6 =
      setIP inetPton junk .exited text port .IPv6 := fun _ => rfl
    exact (checked_iff hset).trans (and_self_iff)

/-! ### A sample -/

/-- An `inet_pton` that knows three addresses. -/
def sample : InetPton where
  v4 s :=
    if s = bytes "10.0.0.1" then .accepted 0x0A000001
    else if s = bytes "10.0.0.12" then .accepted 0x0A00000C
    else .rejected
  v6 s := if s = bytes "::1" then .accepted 1 else .rejected
  supported4 s := by split_ifs <;> exact fun h => by cases h
  supported6 s := by split_ifs <;> exact fun h => by cases h
  rejects_nil := rfl

/-- An IPv6 address, on which the constructors agree, and an IPv4 address, on which they do not. -/
theorem agree_iff_loopback :
    (Agree sample ⟨bytes "[::1]:80", by decide⟩ ⟨bytes "::1", by decide⟩ 80 .IPv6 ↔
      (InetType.IPv6 = .IPv4 → sample.v4 (bytes "::1").dropLast = sample.v4 (bytes "::1"))) ∧
    (Agree sample ⟨bytes "10.0.0.12:80", by decide⟩ ⟨bytes "10.0.0.12", by decide⟩ 80 .IPv4 ↔
      (InetType.IPv4 = .IPv4 →
        sample.v4 (bytes "10.0.0.12").dropLast = sample.v4 (bytes "10.0.0.12"))) ∧
    sample.v4 (bytes "10.0.0.12").dropLast = .accepted 0x0A000001 :=
  ⟨@agree_iff sample ⟨bytes "::1", by decide⟩ ⟨bytes "[::1]:80", by decide⟩ 80 (bytes "80") .IPv6
      ⟨1, rfl⟩ (by decide) ⟨by decide, by decide, by decide⟩ (by decide),
    @agree_iff sample ⟨bytes "10.0.0.12", by decide⟩ ⟨bytes "10.0.0.12:80", by decide⟩ 80 (bytes "80")
      .IPv4 ⟨0x0A00000C, rfl⟩ (by decide) ⟨by decide, by decide, by decide⟩ (by decide), rfl⟩

/-- **Another address**: the slice of `10.0.0.12:80` is `10.0.0.1`. -/
theorem not_agree_IPv4 :
    (Accepts sample .IPv4 (bytes "10.0.0.12") ∧ 0 ∉ bytes "10.0.0.12" ∧ Decimal (bytes "80") 80) ∧
      bytes "10.0.0.12:80" = ipPort .IPv4 (bytes "10.0.0.12") (bytes "80") ∧
      (∃ x y, fromText sample zeros ⟨bytes "10.0.0.12:80", by decide⟩ .IPv4 = .ok x ∧
        fromIpPort sample zeros ⟨bytes "10.0.0.12", by decide⟩ 80 .IPv4 = .ok y ∧
        x.ss.sinAddr = 0x0A000001 ∧ y.ss.sinAddr = 0x0A00000C) ∧
      ¬ Agree sample ⟨bytes "10.0.0.12:80", by decide⟩ ⟨bytes "10.0.0.12", by decide⟩ 80 .IPv4 := by
  refine ⟨⟨⟨_, rfl⟩, by decide, by decide, by decide, by decide⟩, by decide,
    ⟨_, _, rfl, rfl, rfl, rfl⟩, fun h => ?_⟩
  obtain ⟨x, y, hx, hy, hs⟩ := h zeros zeros
  cases hx
  cases hy
  exact absurd (Sum.inl.inj hs.address) (by decide)

/-- **A text that is no address** is taken by both constructors, and the address is what was in
memory. -/
theorem nonsense_accepted :
    (∀ junk, ∃ x y, fromText sample junk ⟨bytes "nonsense", by decide⟩ .IPv4 = .ok x ∧
      fromIpPort sample junk ⟨bytes "nonsense", by decide⟩ 80 .IPv4 = .ok y ∧
      x.ss.sinAddr = junk.sinAddr ∧ y.ss.sinAddr = junk.sinAddr) ∧
      ¬ TextChecked sample ⟨bytes "nonsense", by decide⟩ .IPv4 ∧
      ¬ IpChecked sample ⟨bytes "nonsense", by decide⟩ 80 .IPv4 := by
  refine ⟨fun junk => ⟨_, _, rfl, rfl, rfl, rfl⟩, ?_, ?_⟩
  · rintro ⟨addr, port, h⟩
    obtain ⟨ip, digits, htext, -⟩ := (h zeros _ rfl).1
    have hcolon : 58 ∈ ipPort .IPv4 ip digits := List.mem_append_right ip List.mem_cons_self
    exact absurd (htext ▸ hcolon) (by decide)
  · rintro ⟨addr, h⟩
    obtain ⟨addr', haddr⟩ := (h zeros _ rfl).1
    cases haddr

end Chaining.Net.Address
