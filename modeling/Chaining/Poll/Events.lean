import Mathlib.Data.Int.Notation
import Mathlib.Tactic.Common

/-! # Channels

A channel is what the loop knows of one descriptor: the events it asks for (`event`), the events that
were reported (`revent`) and a callback for each kind of them. The flags repeat what is asked for. The
constructor leaves the flags as it finds them in memory. -/

namespace Chaining.Poll.Events

/-! ### Events -/

def EPOLLIN : BitVec 32 := 0x001

def EPOLLPRI : BitVec 32 := 0x002

def EPOLLOUT : BitVec 32 := 0x004

def EPOLLERR : BitVec 32 := 0x008

def EPOLLHUP : BitVec 32 := 0x010

def EPOLLRDHUP : BitVec 32 := 0x2000

/-- The events of one kind that a channel asks for. -/
inductive Event where
  | IN
  | OUT
  | ERROR

def Event.bits : Event → BitVec 32
  | IN => EPOLLIN ||| EPOLLHUP
  | OUT => EPOLLOUT
  | ERROR => EPOLLERR

/-- A bit of the mask is set. -/
def has (mask bits : BitVec 32) : Bool := mask &&& bits ≠ 0

/-- The four callbacks, in the order in which `handleEvent` comes to them. -/
inductive Kind where
  | close
  | error
  | read
  | write
  deriving DecidableEq

/-- The events on which `handleEvent` invokes the callback. -/
def Kind.due : Kind → BitVec 32 → Bool
  | close, revent => has revent EPOLLHUP && !has revent EPOLLIN
  | error, revent => has revent EPOLLERR
  | read, revent => has revent (EPOLLIN ||| EPOLLPRI ||| EPOLLRDHUP)
  | write, revent => has revent EPOLLOUT

/-! ### The object -/

/-- A channel; `κ` are the callbacks, and `tie` is the object it was tied to. -/
structure Channel (κ : Type*) where
  fd : ℤ
  event : BitVec 32
  revent : BitVec 32
  isReading : Bool
  isWriting : Bool
  isErroring : Bool
  tie : Option ℕ
  tied : Bool
  readcb : Option κ
  writecb : Option κ
  errorcb : Option κ
  closecb : Option κ

variable {κ : Type*}

namespace Channel

/-- `Channel(loop, fd)`, in memory that held `junk`. -/
def construct (fd : ℤ) (junk : Channel κ) : Channel κ where
  fd := fd
  event := 0
  revent := 0
  isReading := junk.isReading
  isWriting := junk.isWriting
  isErroring := junk.isErroring
  tie := none
  tied := false
  readcb := none
  writecb := none
  errorcb := none
  closecb := none

variable (c : Channel κ)

def setRevent (revent : BitVec 32) : Channel κ := { c with revent := revent }

def enableRead : Channel κ := { c with isReading := true, event := c.event ||| Event.IN.bits }

def enableWrite : Channel κ := { c with isWriting := true, event := c.event ||| Event.OUT.bits }

def enableError : Channel κ := { c with event := c.event ||| Event.ERROR.bits }

def disableReading : Channel κ :=
  { c with isReading := false, event := c.event &&& ~~~Event.IN.bits }

def disableWriting : Channel κ :=
  { c with isWriting := false, event := c.event &&& ~~~Event.OUT.bits }

def disableError : Channel κ := { c with event := c.event &&& ~~~Event.ERROR.bits }

def disableAll : Channel κ :=
  { c with event := 0, isWriting := false, isReading := false, isErroring := false }

def setTie (owner : ℕ) : Channel κ := { c with tie := some owner, tied := true }

def setReadCallback (cb : Option κ) : Channel κ := { c with readcb := cb }

def setWriteCallback (cb : Option κ) : Channel κ := { c with writecb := cb }

/-- The source assigns the write callback here. -/
def setErrorCallback (cb : Option κ) : Channel κ := { c with writecb := cb }

def setCloseCallback (cb : Option κ) : Channel κ := { c with closecb := cb }

def callback : Kind → Option κ
  | .close => c.closecb
  | .error => c.errorcb
  | .read => c.readcb
  | .write => c.writecb

/-- `handleEvent` would invoke this callback. -/
def serves (k : Kind) : Bool := k.due c.revent && (c.callback k).isSome

end Channel

/-- The methods after which a channel has itself registered again. -/
inductive Listen where
  | enableRead
  | enableWrite
  | enableError
  | disableReading
  | disableWriting
  | disableError
  | disableAll

def Listen.apply : Listen → Channel κ → Channel κ
  | enableRead => Channel.enableRead
  | enableWrite => Channel.enableWrite
  | enableError => Channel.enableError
  | disableReading => Channel.disableReading
  | disableWriting => Channel.disableWriting
  | disableError => Channel.disableError
  | disableAll => Channel.disableAll

/-- The methods that only set fields. -/
inductive Setter (κ : Type*) where
  | readCallback (cb : Option κ)
  | writeCallback (cb : Option κ)
  | errorCallback (cb : Option κ)
  | closeCallback (cb : Option κ)
  | tie (owner : ℕ)

def Setter.apply : Setter κ → Channel κ → Channel κ
  | readCallback cb, c => c.setReadCallback cb
  | writeCallback cb, c => c.setWriteCallback cb
  | errorCallback cb, c => c.setErrorCallback cb
  | closeCallback cb, c => c.setCloseCallback cb
  | tie owner, c => c.setTie owner

@[simp] theorem Listen.apply_fd (m : Listen) (c : Channel κ) : (m.apply c).fd = c.fd := by
  cases m <;> rfl

@[simp] theorem Setter.apply_fd (m : Setter κ) (c : Channel κ) : (m.apply c).fd = c.fd := by
  cases m <;> rfl

@[simp] theorem Setter.apply_event (m : Setter κ) (c : Channel κ) :
    (m.apply c).event = c.event := by
  cases m <;> rfl

end Chaining.Poll.Events
