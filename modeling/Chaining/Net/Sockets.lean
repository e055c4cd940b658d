import Chaining.Base.Runs
import Chaining.Outcome
import Mathlib.Data.Int.Notation
import Mathlib.Logic.Function.Basic

/-! # Sockets and the flags of their descriptors

A socket remembers whether its descriptor is non-blocking, so that `setNoblocking` need not ask the
kernel; the descriptor is not its own, and may be closed and its number given out again. The constructor
that takes a descriptor leaves what it remembers as it finds it in memory. So a socket may take a
blocking descriptor for a non-blocking one, and `setNoblocking`, which a connection's constructor calls,
then does nothing. `honest_iff` gives the exact condition, in every run, and `accepted_ready` says that
it does no harm where connections come from: what `accept4` returns is non-blocking from the beginning. -/

namespace Chaining.Net.Sockets

open Chaining.Base.Runs Chaining.Outcome

/-- The flags of an open descriptor, `FD_CLOEXEC` and `O_NONBLOCK`. -/
structure Flags where
  closeOnExec : Bool
  noblocking : Bool
  deriving DecidableEq

structure Socket where
  handler : ℤ
  isNoblocking : Bool

/-- The open descriptors, and the sockets in memory. -/
structure State where
  files : ℤ → Option Flags
  sockets : ℕ → Option Socket

/-- `std::terminate` -/
inductive Terminated where
  | terminated

/-- What happens to sockets and to descriptors. The first is given a `sock_type`, which may have
`SOCK_NONBLOCK` already, and the result of `::socket`; `accept4` has returned a descriptor. Memory that a
socket is made in holds `junk`. -/
inductive Op where
  | socket (i : ℕ) (typeNoblocking noblocking : Bool) (result : Option ℤ)
  | handler (i : ℕ) (fd : ℤ) (junk : Bool)
  | connection (i : ℕ) (fd : ℤ) (junk : Bool)
  | setNoblocking (i : ℕ)
  | destroy (i : ℕ)
  | accept4 (fd : ℤ)
  | opened (fd : ℤ) (flags : Flags)
  | closed (fd : ℤ)

namespace State

variable (s : State)

def put (i : ℕ) (sock : Socket) : State :=
  { s with sockets := Function.update s.sockets i (some sock) }

def give (fd : ℤ) (flags : Flags) : State :=
  { s with files := Function.update s.files fd (some flags) }

/-- `::fcntl`, to get the flags, and again to set them. Both fail if the descriptor is not open, and the
second ends the program then. -/
def fcntl (fd : ℤ) (f : Flags → Flags) : Except Terminated State :=
  match s.files fd with
  | some flags => .ok (s.give fd (f flags))
  | none => .error .terminated

/-- `Socket(family, sock_type, protocol, noblocking)`, which does not look at the result of `::socket`. -/
def construct (i : ℕ) (typeNoblocking noblocking : Bool) : Option ℤ → State
  | some fd => (s.give fd ⟨true, typeNoblocking || noblocking⟩).put i ⟨fd, noblocking⟩
  | none => s.put i ⟨-1, noblocking⟩

/-- `Socket(handler)`. -/
def fromHandler (i : ℕ) (fd : ℤ) (junk : Bool) : Except Terminated State := do
  let s ← s.fcntl fd fun flags => { flags with closeOnExec := true }
  return s.put i ⟨fd, junk⟩

def setNoblocking (i : ℕ) : Except Terminated State :=
  match s.sockets i with
  | none => .ok s
  | some sock =>
    if sock.isNoblocking then .ok s
    else do
      let s ← s.fcntl sock.handler fun flags => { flags with noblocking := true }
      return s.put i { sock with isNoblocking := true }

/-- `TcpConnection`'s constructor. -/
def connect (i : ℕ) (fd : ℤ) (junk : Bool) : Except Terminated State := do
  let s ← s.fromHandler i fd junk
  s.setNoblocking i

def exec : Op → Except Terminated (State × Unit)
  | .socket i typeNoblocking noblocking result =>
    .ok (s.construct i typeNoblocking noblocking result, ())
  | .handler i fd junk => do return (← s.fromHandler i fd junk, ())
  | .connection i fd junk => do return (← s.connect i fd junk, ())
  | .setNoblocking i => do return (← s.setNoblocking i, ())
  | .destroy i => .ok ({ s with sockets := Function.update s.sockets i none }, ())
  | .accept4 fd => .ok (s.give fd ⟨true, true⟩, ())
  | .opened fd flags => .ok (s.give fd flags, ())
  | .closed fd => .ok ({ s with files := Function.update s.files fd none }, ())

end State

/-- No descriptors and no sockets. -/
def init : State where
  files _ := none
  sockets _ := none

/-- A descriptor that is given out is a number that is not in use, a socket is made in free memory, and
methods are called on sockets. -/
def Admits (s : State) : Op → Prop
  | .socket i _ _ result => s.sockets i = none ∧ ∀ fd ∈ result, 0 ≤ fd ∧ s.files fd = none
  | .handler i _ _ | .connection i _ _ => s.sockets i = none
  | .setNoblocking i | .destroy i => s.sockets i ≠ none
  | .accept4 fd | .opened fd _ => 0 ≤ fd ∧ s.files fd = none
  | .closed _ => True

/-- **Sockets are honest**: if one says that its descriptor is non-blocking, and that is open, it is. -/
def Honest (s : State) : Prop :=
  ∀ i sock, s.sockets i = some sock → sock.isNoblocking = true →
    ∀ flags, s.files sock.handler = some flags → flags.noblocking = true

/-- The operation leaves the sockets honest. -/
def LeavesHonest (s : State) (op : Op) : Prop := ∀ s' o, s.exec op = .ok (s', o) → Honest s'

/-- No socket takes the descriptor for a non-blocking one. -/
def Unclaimed (s : State) (fd : ℤ) : Prop :=
  ∀ i sock, s.sockets i = some sock → sock.handler = fd → sock.isNoblocking = false

/-- **The condition**: what a socket that is made for a descriptor finds in memory is not that it were
non-blocking, unless it is; and a number that is given out to a blocking file is that of no socket that
takes it for non-blocking. -/
def Guarded (s : State) : Op → Prop
  | .handler _ fd junk | .connection _ fd junk =>
    junk = true → ∀ flags, s.files fd = some flags → flags.noblocking = true
  | .socket _ typeNoblocking noblocking (some fd) =>
    (typeNoblocking || noblocking) = true ∨ Unclaimed s fd
  | .opened fd flags => flags.noblocking = true ∨ Unclaimed s fd
  | _ => True

variable {s s' : State} {fd : ℤ} {i : ℕ} {sock : Socket} {flags : Flags}

/-! ### The kernel's part -/

/-- A descriptor with these flags leaves the sockets honest exactly if it is non-blocking or none of
them says so. -/
theorem honest_give_iff (h : Honest s) : Honest (s.give fd flags) ↔
    flags.noblocking = true ∨ Unclaimed s fd := by
  constructor
  · intro hs
    by_cases hf : flags.noblocking = true
    · exact Or.inl hf
    · refine Or.inr fun i sock hi hfd => ?_
      by_contra hclaim
      refine hf (hs i sock hi (by simpa using hclaim) flags ?_)
      rw [hfd]
      exact Function.update_self ..
  · intro hcond i sock hi hclaim flags' hat
    unfold State.give at hat
    by_cases hfd : sock.handler = fd
    · dsimp only at hat
      rw [hfd, Function.update_self] at hat
      cases hat
      refine hcond.resolve_right fun hun => ?_
      have hno := hun i sock hi hfd
      rw [hclaim] at hno
      cases hno
    · dsimp only at hat
      rw [Function.update_of_ne hfd] at hat
      exact h i sock hi hclaim flags' hat

/-- A descriptor that is open may get other flags, if it stays non-blocking. -/
theorem Honest.give (h : Honest s) (hfd : s.files fd = some flags) {flags' : Flags}
    (hkept : flags.noblocking = true → flags'.noblocking = true) : Honest (s.give fd flags') := by
  rw [honest_give_iff h]
  by_cases hf : flags.noblocking = true
  · exact Or.inl (hkept hf)
  · refine Or.inr fun i sock hi hsock => ?_
    by_contra hclaim
    refine hf (h i sock hi (by simpa using hclaim) flags ?_)
    rw [hsock, hfd]

/-- A socket may be put anywhere, if what it says is right. -/
theorem Honest.put (h : Honest s) (hown : sock.isNoblocking = true →
    ∀ flags, s.files sock.handler = some flags → flags.noblocking = true) :
    Honest (s.put i sock) := by
  intro j sock' hj
  unfold State.put at hj
  dsimp only at hj
  by_cases hji : j = i
  · rw [hji, Function.update_self] at hj
    cases hj
    exact hown
  · rw [Function.update_of_ne hji] at hj
    exact h j sock' hj

/-- A socket that is put into free memory: its own claim is all that matters. -/
theorem honest_put_iff (hfree : s.sockets i = none) : Honest (s.put i sock) ↔
    Honest s ∧ (sock.isNoblocking = true →
      ∀ flags, s.files sock.handler = some flags → flags.noblocking = true) := by
  refine ⟨fun hs => ⟨fun j sock' hj => hs j sock' ?_, hs i sock (Function.update_self ..)⟩,
    fun ⟨h, hown⟩ => h.put hown⟩
  have hne : j ≠ i := by
    rintro rfl
    rw [hfree] at hj
    cases hj
  exact (Function.update_of_ne hne ..).trans hj

/-! ### What the constructors come to -/

theorem fcntl_eq (hfd : s.files fd = some flags) (f : Flags → Flags) :
    s.fcntl fd f = .ok (s.give fd (f flags)) := by
  unfold State.fcntl
  rw [hfd]

theorem fcntl_closed (hfd : s.files fd = none) (f : Flags → Flags) :
    s.fcntl fd f = .error .terminated := by
  unfold State.fcntl
  rw [hfd]

theorem fromHandler_eq (hfd : s.files fd = some flags) (i : ℕ) (junk : Bool) :
    s.fromHandler i fd junk =
      .ok ((s.give fd { flags with closeOnExec := true }).put i ⟨fd, junk⟩) := by
  unfold State.fromHandler
  rw [fcntl_eq hfd]
  rfl

/-- A socket that takes its descriptor for a blocking one makes it non-blocking. -/
theorem setNoblocking_eq (hi : s.sockets i = some sock) (hclaim : sock.isNoblocking = false)
    (hfd : s.files sock.handler = some flags) :
    s.setNoblocking i = .ok ((s.give sock.handler { flags with noblocking := true }).put i
      { sock with isNoblocking := true }) := by
  unfold State.setNoblocking
  rw [hi]
  dsimp only
  rw [hclaim, if_neg Bool.false_ne_true, fcntl_eq hfd]
  rfl

/-- **A connection's constructor** makes the descriptor non-blocking unless what it finds in memory says
that it is so already. -/
theorem connect_eq (hfd : s.files fd = some flags) (i : ℕ) (junk : Bool) :
    s.connect i fd junk =
      .ok ((s.give fd ⟨true, flags.noblocking || !junk⟩).put i ⟨fd, true⟩) := by
  unfold State.connect
  rw [fromHandler_eq hfd, ok_bind]
  have hi : ((s.give fd { flags with closeOnExec := true }).put i ⟨fd, junk⟩).sockets i =
      some ⟨fd, junk⟩ := Function.update_self ..
  cases junk with
  | true =>
    unfold State.setNoblocking
    rw [hi]
    simp
  | false =>
    have hat : ((s.give fd { flags with closeOnExec := true }).put i ⟨fd, false⟩).files fd =
        some { flags with closeOnExec := true } := Function.update_self ..
    rw [setNoblocking_eq hi rfl hat]
    simp [State.give, State.put]

/-! ### Runs -/

theorem leavesHonest_iff_of_ok {op : Op} (he : s.exec op = .ok (s', ())) :
    LeavesHonest s op ↔ Honest s' := by
  refine ⟨fun h => h s' () he, fun h s'' o he' => ?_⟩
  cases he.symm.trans he'
  exact h

/-- An operation that ends the program leaves nothing. -/
theorem leavesHonest_of_error {op : Op} {e : Terminated} (he : s.exec op = .error e) :
    LeavesHonest s op := fun s'' o he' => by cases he.symm.trans he'

/-- A descriptor that is not open has no flags to speak of. -/
theorem forall_flags_of_closed (hfd : s.files fd = none) (P : Flags → Prop) :
    ∀ flags, s.files fd = some flags → P flags := by
  intro flags hat
  rw [hfd] at hat
  cases hat

theorem exec_closed (hfd : s.files fd = none) (i : ℕ) (junk : Bool) :
    s.exec (.handler i fd junk) = .error .terminated ∧
      s.exec (.connection i fd junk) = .error .terminated := by
  constructor
  · show (s.fcntl fd _ >>= _) >>= _ = _
    rw [fcntl_closed hfd]
    rfl
  · show ((s.fcntl fd _ >>= _) >>= _) >>= _ = _
    rw [fcntl_closed hfd]
    rfl

/-- Where the descriptor is open, the condition is on its flags. -/
theorem guarded_open (hfd : s.files fd = some flags) {claim : Bool} :
    (claim = true → ∀ flags, s.files fd = some flags → flags.noblocking = true) ↔
      (claim = true → flags.noblocking = true) := by
  rw [hfd]
  refine imp_congr_right fun _ => ⟨fun h => h flags rfl, fun h flags' hat => ?_⟩
  cases hat
  exact h

/-- A socket is made for an open descriptor, which stays non-blocking if it is. -/
theorem leavesHonest_made (h : Honest s) (hfree : s.sockets i = none)
    (hfd : s.files fd = some flags) {op : Op} {flags' : Flags} {claim : Bool}
    (he : s.exec op = .ok ((s.give fd flags').put i ⟨fd, claim⟩, ()))
    (hkept : flags.noblocking = true → flags'.noblocking = true) :
    LeavesHonest s op ↔ (claim = true → flags'.noblocking = true) := by
  have hfree' : (s.give fd flags').sockets i = none := hfree
  have hgiven : (s.give fd flags').files fd = some flags' := Function.update_self ..
  rw [leavesHonest_iff_of_ok he, honest_put_iff hfree', and_iff_right (h.give hfd hkept)]
  exact guarded_open hgiven

/-- After `setNoblocking` what the socket says is right. -/
theorem leavesHonest_setNoblocking (h : Honest s) (i : ℕ) : LeavesHonest s (.setNoblocking i) := by
  have hexec : s.exec (.setNoblocking i) = s.setNoblocking i >>= fun t => .ok (t, ()) := rfl
  rw [LeavesHonest, hexec]
  cases hi : s.sockets i with
  | none =>
    have he : s.setNoblocking i = .ok s := by simp [State.setNoblocking, hi]
    rw [he]
    rintro s' o ⟨⟩
    exact h
  | some sock =>
    cases hclaim : sock.isNoblocking with
    | true =>
      have he : s.setNoblocking i = .ok s := by simp [State.setNoblocking, hi, hclaim]
      rw [he]
      rintro s' o ⟨⟩
      exact h
    | false =>
      cases hfd : s.files sock.handler with
      | none =>
        have he : s.setNoblocking i = .error .terminated := by
          simp [State.setNoblocking, hi, hclaim, fcntl_closed hfd]
        rw [he]
        rintro s' o ⟨⟩
      | some flags =>
        rw [setNoblocking_eq hi hclaim hfd]
        rintro s' o ⟨⟩
        refine (h.give hfd fun _ => rfl).put fun _ flags' hat => ?_
        have hgiven : (s.give sock.handler { flags with noblocking := true }).files sock.handler =
            some { flags with noblocking := true } := Function.update_self ..
        cases hgiven.symm.trans hat
        rfl

/-- **One operation** leaves the sockets honest exactly if it is guarded. -/
theorem leavesHonest_iff (h : Honest s) (hneg : s.files (-1) = none) {op : Op} (hadm : Admits s op) :
    LeavesHonest s op ↔ Guarded s op := by
  cases op with
  | socket i typeNoblocking noblocking result =>
    rw [leavesHonest_iff_of_ok rfl]
    cases result with
    | none =>
      refine iff_of_true (h.put fun _ flags hat => ?_) trivial
      cases hneg.symm.trans hat
    | some fd =>
      have hfree : (s.give fd ⟨true, typeNoblocking || noblocking⟩).sockets i = none := hadm.1
      have hgiven : (s.give fd ⟨true, typeNoblocking || noblocking⟩).files fd =
          some ⟨true, typeNoblocking || noblocking⟩ := Function.update_self ..
      show Honest ((s.give fd ⟨true, typeNoblocking || noblocking⟩).put i ⟨fd, noblocking⟩) ↔ _
      rw [honest_put_iff hfree, honest_give_iff h]
      refine and_iff_left ((guarded_open hgiven).mpr fun hclaim => ?_)
      rw [show noblocking = true from hclaim, Bool.or_true]
  | handler i fd junk =>
    cases hfd : s.files fd with
    | none =>
      exact iff_of_true (leavesHonest_of_error (exec_closed hfd i junk).1)
        fun _ => forall_flags_of_closed hfd _
    | some flags =>
      have he : s.exec (.handler i fd junk) =
          .ok ((s.give fd { flags with closeOnExec := true }).put i ⟨fd, junk⟩, ()) := by
        show s.fromHandler i fd junk >>= _ = _
        rw [fromHandler_eq hfd]
        rfl
      exact (leavesHonest_made h hadm hfd he id).trans (guarded_open hfd).symm
  | connection i fd junk =>
    cases hfd : s.files fd with
    | none =>
      exact iff_of_true (leavesHonest_of_error (exec_closed hfd i junk).2)
        fun _ => forall_flags_of_closed hfd _
    | some flags =>
      have he : s.exec (.connection i fd junk) =
          .ok ((s.give fd ⟨true, flags.noblocking || !junk⟩).put i ⟨fd, true⟩, ()) := by
        show s.connect i fd junk >>= _ = _
        rw [connect_eq hfd]
        rfl
      rw [leavesHonest_made h hadm hfd he fun hf => by simp [hf]]
      refine Iff.trans ?_ (guarded_open hfd).symm
      cases junk <;> simp
  | setNoblocking i => exact iff_of_true (leavesHonest_setNoblocking h i) trivial
  | destroy i =>
    refine iff_of_true ((leavesHonest_iff_of_ok rfl).mpr fun j sock hj => ?_) trivial
    dsimp only at hj
    by_cases hji : j = i
    · rw [hji, Function.update_self] at hj
      cases hj
    · rw [Function.update_of_ne hji] at hj
      exact h j sock hj
  | accept4 fd =>
    exact iff_of_true ((leavesHonest_iff_of_ok rfl).mpr ((honest_give_iff h).mpr (Or.inl rfl))) trivial
  | opened fd flags => exact (leavesHonest_iff_of_ok rfl).trans (honest_give_iff h)
  | closed fd =>
    refine iff_of_true ((leavesHonest_iff_of_ok rfl).mpr fun i sock hi hclaim flags hat => ?_) trivial
    dsimp only at hat
    by_cases hfd : sock.handler = fd
    · rw [hfd, Function.update_self] at hat
      cases hat
    · rw [Function.update_of_ne hfd] at hat
      exact h i sock hi hclaim flags hat

/-- No flag is taken away. -/
def Kept (flags flags' : Flags) : Prop :=
  (flags.closeOnExec = true → flags'.closeOnExec = true) ∧
    (flags.noblocking = true → flags'.noblocking = true)

/-- **What an operation does to the descriptors**: nothing, or it gives one out, or sets flags of one
that is open, or it is a `close`. -/
theorem files_exec {op : Op} {o : Unit} (hadm : Admits s op) (he : s.exec op = .ok (s', o)) :
    s'.files = s.files ∨
      (∃ fd flags', s'.files = Function.update s.files fd (some flags') ∧
        (0 ≤ fd ∧ s.files fd = none ∨ ∃ flags, s.files fd = some flags ∧ Kept flags flags')) ∨
      ∃ fd, op = .closed fd ∧ s'.files = Function.update s.files fd none := by
  cases op with
  | socket i typeNoblocking noblocking result =>
    cases result with
    | none =>
      cases he
      exact Or.inl rfl
    | some fd =>
      cases he
      exact Or.inr (Or.inl ⟨fd, _, rfl, Or.inl (hadm.2 fd rfl)⟩)
  | handler i fd junk =>
    cases hfd : s.files fd with
    | none => cases he.symm.trans (exec_closed hfd i junk).1
    | some flags =>
      obtain ⟨t, ht, hret⟩ := bind_eq_ok.mp he
      cases ht.symm.trans (fromHandler_eq hfd i junk)
      cases hret
      exact Or.inr (Or.inl ⟨fd, _, rfl, Or.inr ⟨flags, hfd, fun _ => rfl, id⟩⟩)
  | connection i fd junk =>
    cases hfd : s.files fd with
    | none => cases he.symm.trans (exec_closed hfd i junk).2
    | some flags =>
      obtain ⟨t, ht, hret⟩ := bind_eq_ok.mp he
      cases ht.symm.trans (connect_eq hfd i junk)
      cases hret
      exact Or.inr (Or.inl ⟨fd, _, rfl, Or.inr ⟨flags, hfd, fun _ => rfl, fun hf => by simp [hf]⟩⟩)
  | setNoblocking i =>
    obtain ⟨t, ht, hret⟩ := bind_eq_ok.mp he
    cases hret
    unfold State.setNoblocking at ht
    split at ht
    case h_1 =>
      cases ht
      exact Or.inl rfl
    case h_2 sock hi =>
      split_ifs at ht with hclaim
      · cases ht
        exact Or.inl rfl
      · cases hfd : s.files sock.handler with
        | none =>
          rw [fcntl_closed hfd] at ht
          cases ht
        | some flags =>
          rw [fcntl_eq hfd] at ht
          cases ht
          exact Or.inr (Or.inl ⟨sock.handler, _, rfl, Or.inr ⟨flags, hfd, id, fun _ => rfl⟩⟩)
  | destroy i =>
    cases he
    exact Or.inl rfl
  | accept4 fd =>
    cases he
    exact Or.inr (Or.inl ⟨fd, _, rfl, Or.inl hadm⟩)
  | opened fd flags =>
    cases he
    exact Or.inr (Or.inl ⟨fd, _, rfl, Or.inl hadm⟩)
  | closed fd =>
    cases he
    exact Or.inr (Or.inr ⟨fd, rfl, rfl⟩)

/-- Open descriptors are not negative. -/
def Numbered (s : State) : Prop := ∀ fd flags, s.files fd = some flags → 0 ≤ fd

theorem numbered_exec (h : Numbered s) {op : Op} {o : Unit} (hadm : Admits s op)
    (he : s.exec op = .ok (s', o)) : Numbered s' := by
  intro fd flags hfd
  rcases files_exec hadm he with hsame | ⟨fd', flags', hset, hwhence⟩ | ⟨fd', -, hset⟩
  · rw [hsame] at hfd
    exact h fd flags hfd
  · by_cases heq : fd = fd'
    · rw [heq]
      rcases hwhence with ⟨hnonneg, -⟩ | ⟨flags₀, hopen, -⟩
      · exact hnonneg
      · exact h fd' flags₀ hopen
    · rw [hset, Function.update_of_ne heq] at hfd
      exact h fd flags hfd
  · by_cases heq : fd = fd'
    · rw [hset, heq, Function.update_self] at hfd
      cases hfd
    · rw [hset, Function.update_of_ne heq] at hfd
      exact h fd flags hfd

/-- A descriptor that is not closed keeps its flags. -/
theorem kept_exec {op : Op} {o : Unit} (hadm : Admits s op) (he : s.exec op = .ok (s', o))
    (hop : op ≠ .closed fd) (hfd : s.files fd = some flags) :
    ∃ flags', s'.files fd = some flags' ∧ Kept flags flags' := by
  rcases files_exec hadm he with hsame | ⟨fd', flags', hset, hwhence⟩ | ⟨fd', rfl, hset⟩
  · exact ⟨flags, by rw [hsame, hfd], id, id⟩
  · by_cases heq : fd = fd'
    · rw [← heq, hfd] at hwhence
      rcases hwhence with ⟨-, hnone⟩ | ⟨flags₀, hopen, hkept⟩
      · cases hnone
      · cases hopen
        exact ⟨flags', by rw [hset, heq, Function.update_self], hkept⟩
    · exact ⟨flags, by rw [hset, Function.update_of_ne heq, hfd], id, id⟩
  · have heq : fd ≠ fd' := by
      rintro rfl
      exact hop rfl
    exact ⟨flags, by rw [hset, Function.update_of_ne heq, hfd], id, id⟩

/-- **The exact condition.** In every run of sockets and descriptors, the sockets are honest after every
operation if and only if every operation is guarded. -/
theorem honest_iff {ops : List Op} (hadm : Along State.exec Admits init ops) :
    Along State.exec LeavesHonest init ops ↔ Along State.exec Guarded init ops := by
  have hneg : ∀ {s : State}, Numbered s → s.files (-1) = none := fun hn =>
    Option.eq_none_iff_forall_ne_some.mpr fun flags hat => absurd (hn _ flags hat) (by decide)
  refine along_iff (I := fun s => Honest s ∧ Numbered s) ?_ ?_ ⟨?_, ?_⟩ hadm
  · exact fun s op hI ha => leavesHonest_iff hI.1 (hneg hI.2) ha
  · intro s op s' o hI ha hg he
    exact ⟨(leavesHonest_iff hI.1 (hneg hI.2) ha).mpr hg s' o he, numbered_exec hI.2 ha he⟩
  · rintro i sock ⟨⟩
  · rintro fd flags ⟨⟩

/-- A connection is made for a blocking descriptor, in memory that holds `true`. -/
def taken : List Op := [.opened 3 ⟨false, false⟩, .connection 0 3 true]

/-- **It is taken for non-blocking**, and is not. -/
theorem honest_iff_taken :
    (∃ os s, Run State.exec init taken os s ∧ s.files 3 = some ⟨true, false⟩ ∧
      (s.sockets 0).map Socket.isNoblocking = some true) ∧
    (Along State.exec LeavesHonest init taken ↔ Along State.exec Guarded init taken) := by
  have hadm : Along State.exec Admits init taken := .cons ⟨by decide, rfl⟩ rfl (.cons rfl rfl trivial)
  exact ⟨⟨_, _, .cons rfl (.cons rfl (.nil _)), rfl, rfl⟩, honest_iff hadm⟩

/-- A run in which the descriptor is not closed. -/
theorem kept_run {ops : List Op} {os : List Unit} (hrun : Run State.exec s ops os s')
    (hadm : Along State.exec Admits s ops) (hopen : .closed fd ∉ ops)
    (hfd : s.files fd = some flags) : ∃ flags', s'.files fd = some flags' ∧ Kept flags flags' := by
  induction hrun generalizing flags with
  | nil => exact ⟨flags, hfd, id, id⟩
  | cons he _ ih =>
    rw [List.mem_cons, not_or] at hopen
    obtain ⟨flags₁, hfd₁, hkept⟩ := kept_exec hadm.1 he (Ne.symm hopen.1) hfd
    obtain ⟨flags₂, hfd₂, hkept'⟩ := ih (hadm.2 _ _ he) hopen.2 hfd₁
    exact ⟨flags₂, hfd₂, hkept'.1 ∘ hkept.1, hkept'.2 ∘ hkept.2⟩

/-- **A connection does not block**, if it is made for a descriptor that `accept4` has returned and that
was not closed since: it is non-blocking and closed on `exec`, whatever memory held, and the socket says
so. -/
theorem accepted_ready {ops : List Op} {os : List Unit}
    (hrun : Run State.exec s (.accept4 fd :: ops) os s')
    (hadm : Along State.exec Admits s (.accept4 fd :: ops)) (hopen : .closed fd ∉ ops)
    (i : ℕ) (junk : Bool) :
    ∃ s'', s'.exec (.connection i fd junk) = .ok (s'', ()) ∧
      s''.files fd = some ⟨true, true⟩ ∧ s''.sockets i = some ⟨fd, true⟩ := by
  cases hrun with
  | cons he hrest =>
    have hrest' := hadm.2 _ _ he
    cases he
    obtain ⟨flags, hfd, hexec, hblock⟩ := kept_run hrest hrest' hopen (Function.update_self ..)
    refine ⟨(s'.give fd ⟨true, flags.noblocking || !junk⟩).put i ⟨fd, true⟩, ?_, ?_,
      Function.update_self ..⟩
    · show s'.connect i fd junk >>= _ = _
      rw [connect_eq hfd]
      rfl
    · refine (Function.update_self ..).trans ?_
      rw [hblock rfl, Bool.true_or]

/-- Meanwhile a blocking descriptor is opened, taken for non-blocking and closed, and its number is given
to a socket. -/
def meanwhile : List Op :=
  [.opened 5 ⟨false, false⟩, .handler 0 5 true, .setNoblocking 0, .closed 5, .socket 2 false true (some 5)]

/-- An accepted connection, in memory that holds `true`. -/
theorem accepted_ready_one :
    Along State.exec Admits init (.accept4 4 :: meanwhile) ∧
      ∃ s s', Run State.exec init (.accept4 4 :: meanwhile) [(), (), (), (), (), ()] s ∧
        s.exec (.connection 1 4 true) = .ok (s', ()) ∧
          s'.files 4 = some ⟨true, true⟩ ∧ s'.sockets 1 = some ⟨4, true⟩ := by
  have hadm : Along State.exec Admits init (.accept4 4 :: meanwhile) := by
    refine .cons ⟨by decide, rfl⟩ rfl (.cons ⟨by decide, rfl⟩ rfl (.cons rfl rfl ?_))
    refine .cons (fun h => by cases h) rfl (.cons trivial rfl (.cons ⟨rfl, fun fd hfd => ?_⟩ rfl trivial))
    cases hfd
    exact ⟨by decide, rfl⟩
  have hrun : Run State.exec init (.accept4 4 :: meanwhile) [(), (), (), (), (), ()] _ :=
    .cons rfl (.cons rfl (.cons rfl (.cons rfl (.cons rfl (.cons rfl (.nil _))))))
  obtain ⟨s', he, hfiles, hsock⟩ := accepted_ready hrun hadm (by simp [meanwhile]) 1 true
  exact ⟨hadm, _, s', hrun, he, hfiles, hsock⟩

end Chaining.Net.Sockets
