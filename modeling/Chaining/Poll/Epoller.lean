import Chaining.Outcome
import Chaining.Poll.Events
import Mathlib.Logic.Function.Basic

/-! # The poller and the kernel

The poller keeps a map from descriptors to channels (`channels`) beside the kernel's interest list,
and chooses the operation of `epoll_ctl` by that map. Channels are objects in memory, of which some are
alive; both maps hold their addresses. A channel registers itself after every change of its event mask
and takes itself out when it is destroyed.

The kernel has its rules (`epollCtl`), and may refuse a call that they allow, for want of memory say:
`refuse` tells which operations it refuses. A failed call is only logged. -/

namespace Chaining.Poll.Epoller

open Chaining.Outcome Chaining.Poll.Events

abbrev Addr := ℕ

inductive CtlOp where
  | add
  | mod
  | del
  deriving DecidableEq

/-- What the kernel holds for a descriptor: `data.ptr` and `events`. -/
abbrev Interest := ℤ → Option (Addr × BitVec 32)

/-- **The kernel's rules** of `epoll_ctl`: a descriptor that is added is absent, one that is changed or
removed is present. The new list, or a failure. -/
def epollCtl (interest : Interest) (op : CtlOp) (fd : ℤ) (event : Option (Addr × BitVec 32)) :
    Option Interest :=
  match op, interest fd, event with
  | .add, none, some e => some (Function.update interest fd (some e))
  | .mod, some _, some e => some (Function.update interest fd (some e))
  | .del, some _, _ => some (Function.update interest fd none)
  | _, _, _ => none

/-- The channels, the poller and the kernel. The calls of `epoll_ctl` that failed are logged. -/
structure State (κ : Type*) where
  memory : Addr → Channel κ
  live : Addr → Bool
  channels : ℤ → Option Addr
  interest : Interest
  logged : List (CtlOp × ℤ)

variable {κ : Type*}

/-- What the program may do to channels. -/
inductive Act (κ : Type*) where
  | construct (c : Addr) (fd : ℤ)
  | listen (c : Addr) (m : Listen)
  | set (c : Addr) (m : Setter κ)
  | destroy (c : Addr)

/-- A step of the loop's thread: something the program does, or a wait that returns with these
events, `data.ptr` and `events` of each. -/
inductive Op (κ : Type*) where
  | act (a : Act κ)
  | wait (events : List (Addr × BitVec 32))

namespace State

variable (refuse : CtlOp → Bool) (s : State κ)

def modify (c : Addr) (f : Channel κ → Channel κ) : State κ :=
  { s with memory := Function.update s.memory c (f (s.memory c)) }

def ctl (op : CtlOp) (fd : ℤ) (event : Option (Addr × BitVec 32)) : State κ :=
  match if refuse op then none else epollCtl s.interest op fd event with
  | some interest => { s with interest := interest }
  | none => { s with logged := (op, fd) :: s.logged }

def updateOperation (op : CtlOp) (channel : Addr) : State κ :=
  s.ctl refuse op (s.memory channel).fd (some (channel, (s.memory channel).event))

/-- `Epoller::update`. -/
def update (channel : Addr) : State κ :=
  let fd := (s.memory channel).fd
  match s.channels fd with
  | none =>
    { s with channels := Function.update s.channels fd (some channel) }.updateOperation refuse .add
      channel
  | some _ => s.updateOperation refuse .mod channel

def removeFromEpoll (fd : ℤ) : State κ := s.ctl refuse .del fd none

/-- `Epoller::removeChannel`, with its two `assert`s; `n` is the number of entries erased. -/
def removeChannel (channel : Addr) : Except Fault (State κ) :=
  let fd := (s.memory channel).fd
  if s.channels fd = none then .error .assertFailed
  else
    let n := if (s.channels fd).isSome then 1 else 0
    if n ≠ 1 then .error .assertFailed
    else .ok ({ s with channels := Function.update s.channels fd none }.removeFromEpoll refuse fd)

/-- `Epoller::fillActivatedChannels`, which looks at each event's channel. -/
def fillActivatedChannels : List (Addr × BitVec 32) → State κ → Except Fault (State κ × List Addr)
  | [], s => .ok (s, [])
  | (channel, events) :: rest, s =>
    if s.live channel = false then .error .destroyed
    else if s.channels (s.memory channel).fd = none then .error .assertFailed
    else do
      let (s, activated) ← fillActivatedChannels rest (s.modify channel (·.setRevent events))
      return (s, channel :: activated)

/-- The constructor of a channel, in memory that is free. -/
def construct (channel : Addr) (fd : ℤ) : State κ :=
  { s.modify channel (Channel.construct fd) with live := Function.update s.live channel true }

/-- `enableRead` to `disableAll`. -/
def listen (channel : Addr) (m : Listen) : Except Fault (State κ) :=
  if s.live channel = false then .error .destroyed
  else .ok ((s.modify channel m.apply).update refuse channel)

def set (channel : Addr) (m : Setter κ) : Except Fault (State κ) :=
  if s.live channel = false then .error .destroyed else .ok (s.modify channel m.apply)

/-- The destructor: `disableAll`, and then `remove`. What it leaves in memory stays there. -/
def destroy (channel : Addr) : Except Fault (State κ) := do
  let s ← s.listen refuse channel .disableAll
  let s ← s.removeChannel refuse channel
  return { s with live := Function.update s.live channel false }

def act : Act κ → Except Fault (State κ)
  | .construct c fd => .ok (s.construct c fd)
  | .listen c m => s.listen refuse c m
  | .set c m => s.set c m
  | .destroy c => s.destroy refuse c

/-- One step, with the channels that a wait has activated. -/
def exec : Op κ → Except Fault (State κ × List Addr)
  | .act a => do return (← s.act refuse a, [])
  | .wait events => s.fillActivatedChannels events

@[simp] theorem modify_memory_self (c : Addr) (f : Channel κ → Channel κ) :
    (s.modify c f).memory c = f (s.memory c) := Function.update_self ..

theorem modify_memory_of_ne {c c' : Addr} (h : c' ≠ c) (f : Channel κ → Channel κ) :
    (s.modify c f).memory c' = s.memory c' := Function.update_of_ne h ..

theorem exec_act {s s' : State κ} {a : Act κ} (h : s.act refuse a = .ok s') :
    s.exec refuse (.act a) = .ok (s', []) := by
  rw [exec, h]
  rfl

end State

/-- No channels, and memory that holds anything. -/
def init (memory : Addr → Channel κ) : State κ where
  memory := memory
  live _ := false
  channels _ := none
  interest _ := none
  logged := []

/-- Memory that holds zeros. -/
def zeros : Addr → Channel κ :=
  fun _ => ⟨0, 0, 0, false, false, false, none, false, none, none, none, none⟩

/-- The kernel refuses nothing that its rules allow. -/
def willing : CtlOp → Bool := fun _ => false

end Chaining.Poll.Epoller
