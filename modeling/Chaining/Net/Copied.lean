import Chaining.Base.Runs
import Chaining.Base.Window
import Chaining.Net.Address

/-! # The bytes of an address

To the kernel an `InetAddr` is the first `GetSize()` bytes of its storage, and its constructor from a
`sockaddr`, like `setInetAddr`, copies as many bytes as it is given. The type comes from their number
alone: sixteen are an IPv4 address, and anything else is an IPv6 address of twenty-eight.

`view` reads the fields that the other constructors set out of the bytes, so that what these modules
say of addresses holds of what the kernel is shown. An address that is copied is the same address
(`copied_same`); but one that was made from fewer bytes than it shows, as of a peer of another family,
shows bytes of what was in memory before (`shown_iff`). -/

namespace Chaining.Net.Copied

open Chaining.Base.Runs Chaining.Base.Window Chaining.Outcome
open Chaining.Http.Response (Bytes)
open Chaining.Net.Inet Chaining.Net.Address

/-- `sizeof(sockaddr_storage)` -/
abbrev storageSize : ℕ := 128

/-- `sockaddr_storage`, byte by byte. -/
structure Storage where
  bytes : Bytes
  length_bytes : bytes.length = storageSize

/-- An `InetAddr` with this storage. -/
structure Object where
  ss : Storage
  type : InetType

namespace Storage

variable (s : Storage)

/-- A store into the storage. -/
def put (i : ℕ) (bs : Bytes) (h : i + bs.length ≤ storageSize) : Storage where
  bytes := splice s.bytes i bs
  length_bytes := by rw [length_splice (by rw [s.length_bytes]; exact h), s.length_bytes]

/-- `::memcpy` of a whole `sockaddr`. -/
def memcpy (addr : Bytes) : Except Fault Storage :=
  if h : addr.length ≤ storageSize then .ok (s.put 0 addr (by omega)) else .error .outOfBounds

/-- A number of two bytes, the lower one first. -/
def readUInt16 (i : ℕ) : UInt16 :=
  UInt16.ofNat ((window s.bytes i 2).foldr (fun b k => b.toNat + 256 * k) 0)

/-- The number that bytes in network order write. -/
def readNetwork (i n : ℕ) : ℕ := (window s.bytes i n).foldl (fun k b => 256 * k + b.toNat) 0

/-- The fields of `sockaddr_in` and `sockaddr_in6`, at their places. -/
def fields : SockaddrStorage where
  family := s.readUInt16 0
  port := s.readUInt16 2
  sinAddr := BitVec.ofNat 32 (s.readNetwork 4 4)
  sin6Addr := BitVec.ofNat 128 (s.readNetwork 8 16)

end Storage

/-- A number of two bytes, as it is stored. -/
def bytesOfUInt16 (x : UInt16) : Bytes := [UInt8.ofNat (x.toNat % 256), UInt8.ofNat (x.toNat / 256)]

/-- A number of four bytes in network order: what `::htonl` makes of it, as it is stored. -/
def networkBytes (x : UInt32) : Bytes :=
  [UInt8.ofNat (x.toNat / 16777216), UInt8.ofNat (x.toNat / 65536 % 256),
    UInt8.ofNat (x.toNat / 256 % 256), UInt8.ofNat (x.toNat % 256)]

namespace Object

/-- The type that a number of bytes is taken for; sixteen is `sizeof(sockaddr_in)`. -/
def typeOf (addrlen : ℕ) : InetType := if addrlen = 16 then .IPv4 else .IPv6

/-- `InetAddr(ip, port)`, in memory that held `junk`. -/
def ofNumber (junk : Storage) (ip : UInt32) (port : UInt16) : Object where
  ss := ((junk.put 0 (bytesOfUInt16 AF_INET) (by simp [bytesOfUInt16, storageSize])).put 2
    (bytesOfUInt16 (htons port)) (by simp [bytesOfUInt16, storageSize])).put 4 (networkBytes ip)
    (by simp [networkBytes, storageSize])
  type := .IPv4

/-- `InetAddr(addr, addrlen)`. -/
def fromSockaddr (junk : Storage) (addr : Bytes) : Except Fault Object := do
  let ss ← junk.memcpy addr
  return { ss := ss, type := typeOf addr.length }

variable (x : Object)

def setInetAddr (addr : Bytes) : Except Fault Object := do
  let x := { x with type := typeOf addr.length }
  let ss ← x.ss.memcpy addr
  return { x with ss := ss }

/-- `GetSize`: `sizeof(sockaddr_in)` or `sizeof(sockaddr_in6)`. -/
def getSize : ℕ :=
  match x.type with
  | .IPv4 => 16
  | .IPv6 => 28

/-- What the kernel is shown, by `GetSockaddr` and `GetSize`. -/
def shown : Bytes := window x.ss.bytes 0 x.getSize

/-- The address that the bytes are. -/
def view : InetAddr where
  ss := x.ss.fields
  type := x.type

/-- One assignment after the other. -/
def exec (x : Object) (addr : Bytes) : Except Fault (Object × Unit) := do
  return (← x.setInetAddr addr, ())

end Object

open Object

variable {x y : Object} {addr : Bytes}

/-! ### What an assignment leaves -/

/-- The constructor is an assignment, to whatever was in memory. -/
theorem fromSockaddr_eq (junk : Storage) (type : InetType) (addr : Bytes) :
    fromSockaddr junk addr = Object.setInetAddr ⟨junk, type⟩ addr := rfl

theorem memcpy_eq (s : Storage) (h : addr.length ≤ storageSize) :
    s.memcpy addr = .ok (s.put 0 addr (by omega)) := dif_pos h

theorem setInetAddr_eq (x : Object) (h : addr.length ≤ storageSize) :
    x.setInetAddr addr = .ok ⟨x.ss.put 0 addr (by omega), typeOf addr.length⟩ := by
  show x.ss.memcpy addr >>= _ = _
  rw [memcpy_eq x.ss h]
  rfl

/-- The storage does not overflow if the address is that long at most. -/
theorem length_le_of_setInetAddr (h : x.setInetAddr addr = .ok y) : addr.length ≤ storageSize := by
  by_contra hlong
  have he : x.ss.memcpy addr = .error .outOfBounds := dif_neg hlong
  obtain ⟨ss, hss, -⟩ := bind_eq_ok.mp h
  cases he.symm.trans hss

theorem length_shown (x : Object) : x.shown.length = x.getSize := by
  have hlen := x.ss.length_bytes
  refine length_window ?_
  rw [hlen]
  unfold getSize storageSize
  cases x.type <;> decide

theorem typeOf_getSize (x : Object) : typeOf x.getSize = x.type := by
  unfold typeOf getSize
  cases x.type <;> rfl

theorem getSize_congr (h : x.type = y.type) : x.getSize = y.getSize := by
  unfold getSize
  rw [h]

/-- **What is shown after an assignment**: what was copied, as far as it is shown, and behind that what
was there before. -/
theorem shown_assigned (h : x.setInetAddr addr = .ok y) :
    y.type = typeOf addr.length ∧
      y.shown = (addr ++ x.ss.bytes.drop addr.length).take y.getSize := by
  have hlen := length_le_of_setInetAddr h
  cases h.symm.trans (setInetAddr_eq x hlen)
  refine ⟨rfl, ?_⟩
  unfold shown window Storage.put splice
  simp only [List.drop_zero, List.take_zero, List.nil_append, Nat.zero_add]

/-! ### Copies -/

/-- The bytes that are shown are those of the storage. -/
theorem window_shown (x : Object) {i n : ℕ} (h : i + n ≤ x.getSize) :
    window x.ss.bytes i n = window x.shown i n := (window_take h).symm

/-- Objects of one type that show the same are the same address. -/
theorem same_of_shown (htype : x.type = y.type) (hshown : x.shown = y.shown) :
    Same x.view y.view := by
  have hsize := getSize_congr htype
  have hwindow : ∀ {i n}, i + n ≤ x.getSize → window x.ss.bytes i n = window y.ss.bytes i n := by
    intro i n h
    rw [window_shown x h, hshown, ← window_shown y (hsize ▸ h)]
  have hsmall : 16 ≤ x.getSize := by
    unfold getSize
    cases x.type <;> decide
  refine ⟨htype, ?_, ?_, ?_⟩
  · show x.ss.readUInt16 0 = y.ss.readUInt16 0
    rw [Storage.readUInt16, hwindow (by omega), Storage.readUInt16]
  · show x.ss.readUInt16 2 = y.ss.readUInt16 2
    rw [Storage.readUInt16, hwindow (by omega), Storage.readUInt16]
  · unfold address
    show (match x.type with | .IPv4 => _ | .IPv6 => _) = match y.type with | .IPv4 => _ | .IPv6 => _
    rw [← htype]
    cases hx : x.type with
    | IPv4 =>
      refine congrArg Sum.inl (congrArg (BitVec.ofNat 32) ?_)
      rw [Storage.readNetwork, hwindow (by omega), Storage.readNetwork]
    | IPv6 =>
      have hlarge : x.getSize = 28 := by
        unfold getSize
        rw [hx]
      refine congrArg Sum.inr (congrArg (BitVec.ofNat 128) ?_)
      rw [Storage.readNetwork, hwindow (by omega), Storage.readNetwork]

/-- **A copy is the same address**: whatever an `InetAddr` was, what is assigned to it from another one's
`GetSockaddr` and `GetSize` it shows as the other one does. -/
theorem copied_same (x y : Object) : ∃ z, y.setInetAddr x.shown = .ok z ∧ z.type = x.type ∧
    z.shown = x.shown ∧ Same z.view x.view := by
  have hlen : x.shown.length ≤ storageSize := by
    rw [length_shown]
    unfold getSize storageSize
    cases x.type <;> decide
  obtain ⟨z, hz⟩ : ∃ z, y.setInetAddr x.shown = .ok z := ⟨_, setInetAddr_eq y hlen⟩
  obtain ⟨htype, hshown⟩ := shown_assigned hz
  rw [length_shown, typeOf_getSize] at htype
  rw [getSize_congr htype, ← length_shown x, List.take_left] at hshown
  exact ⟨z, hz, htype, hshown, same_of_shown htype hshown⟩

/-! ### Assignments -/

/-- What is shown after the last of some assignments is determined by that one. -/
def Determined (addr : Bytes) : Prop :=
  ∀ x x' before before' os os' y y', Run Object.exec x (before ++ [addr]) os y →
    Run Object.exec x' (before' ++ [addr]) os' y' → y.shown = y'.shown

/-- The last assignment of a run. -/
theorem exists_last {before : List Bytes} {os : List Unit}
    (hrun : Run Object.exec x (before ++ [addr]) os y) : ∃ m : Object, m.setInetAddr addr = .ok y := by
  induction before generalizing x os with
  | nil =>
    cases hrun with
    | cons he hrest =>
      cases hrest
      obtain ⟨z, hz, hret⟩ := bind_eq_ok.mp he
      cases hret
      exact ⟨x, hz⟩
  | cons first before ih =>
    cases hrun with
    | cons he hrest => exact ih hrest

/-- A storage all of whose bytes are the same. -/
def filled (b : UInt8) : Storage := ⟨List.replicate storageSize b, List.length_replicate⟩

/-- The first byte behind a short address is what it was. -/
theorem getD_shown_filled {b : UInt8} {type : InetType} (hlen : addr.length < 28)
    (hne : addr.length ≠ 16) (h : Object.setInetAddr ⟨filled b, type⟩ addr = .ok y) :
    y.shown.getD addr.length 0 = b := by
  obtain ⟨htype, hshown⟩ := shown_assigned h
  have hsize : y.getSize = 28 := by
    unfold getSize
    rw [htype, typeOf, if_neg hne]
  have hrest : (filled b).bytes.drop addr.length = b :: List.replicate (127 - addr.length) b := by
    have hpos : storageSize - addr.length = (127 - addr.length) + 1 := by
      unfold storageSize
      omega
    show (List.replicate storageSize b).drop addr.length = _
    rw [List.drop_replicate, hpos, List.replicate_succ]
  rw [hshown, hsize, hrest, List.getD_eq_getElem?_getD, List.getElem?_take_of_lt hlen,
    List.getElem?_append_right le_rfl, Nat.sub_self]
  rfl

/-- **When an address is what it was made from**: whatever it was before, and however often it was
assigned, what it shows is determined by the last `sockaddr` exactly if that had sixteen bytes, or
twenty-eight or more. Of one with more bytes than the storage has, the copy is a fault and nothing is
shown. -/
theorem shown_iff (addr : Bytes) : Determined addr ↔ addr.length = 16 ∨ 28 ≤ addr.length := by
  constructor
  · intro h
    by_contra hlen
    rw [not_or] at hlen
    have hshort : addr.length < 28 := by omega
    have hfits : addr.length ≤ storageSize := by
      unfold storageSize
      omega
    -- the same assignment, in memory of zeros and in memory of ones
    have hrun : ∀ b, ∃ y, Run Object.exec ⟨filled b, .IPv4⟩ ([] ++ [addr]) [()] y ∧
        y.shown.getD addr.length 0 = b := by
      intro b
      have he := setInetAddr_eq ⟨filled b, .IPv4⟩ hfits
      refine ⟨_, .cons ?_ (.nil _), getD_shown_filled hshort hlen.1 he⟩
      show Object.setInetAddr _ addr >>= _ = _
      rw [he]
      rfl
    obtain ⟨y, hy, h0⟩ := hrun 0
    obtain ⟨y', hy', h1⟩ := hrun 1
    rw [h _ _ _ _ _ _ _ _ hy hy', h1] at h0
    exact absurd h0 (by decide)
  · intro hlen x x' before before' os os' y y' hy hy'
    have hlast : ∀ {x : Object} {before : List Bytes} {os : List Unit} {y : Object},
        Run Object.exec x (before ++ [addr]) os y →
          y.shown = addr.take (if addr.length = 16 then 16 else 28) := by
      intro x before os y hrun
      obtain ⟨m, hm⟩ := exists_last hrun
      obtain ⟨htype, hshown⟩ := shown_assigned hm
      have hsize : y.getSize = if addr.length = 16 then 16 else 28 := by
        unfold getSize
        rw [htype, typeOf]
        split_ifs <;> rfl
      rw [hshown, hsize, List.take_append_of_le_length]
      split_ifs <;> omega
    rw [hlast hy, hlast hy']

/-! ### The numeric constructor -/

theorem readUInt16_put_self (s : Storage) (i : ℕ) (x : UInt16)
    (h : i + (bytesOfUInt16 x).length ≤ storageSize) :
    (s.put i (bytesOfUInt16 x) h).readUInt16 i = x := by
  have hi : i ≤ s.bytes.length := by
    rw [s.length_bytes]
    omega
  have hwindow : window (s.put i (bytesOfUInt16 x) h).bytes i 2 = bytesOfUInt16 x :=
    window_splice_self hi
  have hlt := x.toNat_lt
  have hlow : x.toNat % 256 < UInt8.size := Nat.mod_lt _ (by decide)
  have hhigh : x.toNat / 256 < UInt8.size := by
    show x.toNat / 256 < 256
    omega
  unfold Storage.readUInt16
  rw [hwindow]
  show UInt16.ofNat ((UInt8.ofNat (x.toNat % 256)).toNat +
    256 * ((UInt8.ofNat (x.toNat / 256)).toNat + 256 * 0)) = x
  rw [UInt8.toNat_ofNat_of_lt' hlow, UInt8.toNat_ofNat_of_lt' hhigh]
  have hsum : x.toNat % 256 + 256 * (x.toNat / 256 + 256 * 0) = x.toNat := by omega
  rw [hsum, UInt16.ofNat_toNat]

/-- What is stored behind a number leaves it alone. -/
theorem readUInt16_put_below (s : Storage) {i j : ℕ} (bs : Bytes) (hij : j + 2 ≤ i)
    (h : i + bs.length ≤ storageSize) : (s.put i bs h).readUInt16 j = s.readUInt16 j := by
  have hi : i ≤ s.bytes.length := by
    rw [s.length_bytes]
    omega
  have hwindow : window (s.put i bs h).bytes j 2 = window s.bytes j 2 := window_splice_below hij hi
  rw [Storage.readUInt16, hwindow, Storage.readUInt16]

theorem readNetwork_put_self (s : Storage) (i : ℕ) (x : UInt32)
    (h : i + (networkBytes x).length ≤ storageSize) :
    (s.put i (networkBytes x) h).readNetwork i 4 = x.toNat := by
  have hi : i ≤ s.bytes.length := by
    rw [s.length_bytes]
    omega
  have hwindow : window (s.put i (networkBytes x) h).bytes i 4 = networkBytes x :=
    window_splice_self hi
  have hlt := x.toNat_lt
  have hbyte : ∀ n, (UInt8.ofNat (n % 256)).toNat = n % 256 := fun n =>
    UInt8.toNat_ofNat_of_lt' (Nat.mod_lt _ (by decide))
  have htop : x.toNat / 16777216 = x.toNat / 16777216 % 256 := by omega
  unfold Storage.readNetwork
  rw [hwindow]
  unfold networkBytes
  rw [htop]
  simp only [List.foldl_cons, List.foldl_nil, hbyte]
  omega

/-- **The numeric constructor** makes the same address as the textual one of a text that `inet_pton` takes
for that number. -/
theorem ofNumber_same (inetPton : InetPton) (junk : Storage) (junk' : SockaddrStorage) {ip : UInt32}
    {text : StringView} (port : UInt16)
    (htext : inetPton.v4 (cstr text) = .accepted (BitVec.ofNat 32 ip.toNat)) :
    ∃ x, InetAddr.fromIpPort inetPton junk' text port .IPv4 = .ok x ∧
      Same (ofNumber junk ip port).view x := by
  refine ⟨_, setIPv4_accepted htext, rfl, ?_, ?_, congrArg Sum.inl (congrArg (BitVec.ofNat 32) ?_)⟩
  · show (ofNumber junk ip port).ss.readUInt16 0 = AF_INET
    unfold ofNumber
    dsimp only
    rw [readUInt16_put_below _ _ (show 0 + 2 ≤ 4 by decide),
      readUInt16_put_below _ _ (show 0 + 2 ≤ 2 by decide), readUInt16_put_self]
  · show (ofNumber junk ip port).ss.readUInt16 2 = htons port
    unfold ofNumber
    dsimp only
    rw [readUInt16_put_below _ _ (show 2 + 2 ≤ 4 by decide), readUInt16_put_self]
  · show (ofNumber junk ip port).ss.readNetwork 4 4 = ip.toNat
    unfold ofNumber
    dsimp only
    rw [readNetwork_put_self]

end Chaining.Net.Copied
