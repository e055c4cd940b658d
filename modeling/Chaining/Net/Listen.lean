import Chaining.Outcome
import Mathlib.Data.Int.Notation
import Mathlib.Logic.Function.Basic

/-! # The listening socket

A listening socket holds two descriptors: its own, and an idle one (`/dev/null`) that is given up when
the process has run out of descriptors, so that a pending connection can be accepted and closed. Each
of the system calls may fail, and a descriptor number is given out again once it is closed.

The kernel's table says which descriptors are open and whose they are; every descriptor it gives out
has a number of its own besides (`serial`), by which the history `log` tells what became of it. The
rest of the program works on its own descriptors at any time, also between two system calls of
`accept`. -/

namespace Chaining.Net.Listen

open Chaining.Outcome

inductive Owner where
  | listener
  | program
  deriving DecidableEq

/-- An open descriptor. -/
structure Fd where
  owner : Owner
  serial : ℕ
  deriving DecidableEq

/-- What happens to descriptors: `accept4` or `accept` has returned one, one was passed to the
new-connection callback, the listener has closed one that was open, or one that was not. -/
inductive Event where
  | returned (fd : ℤ) (serial : ℕ)
  | passed (fd : ℤ) (serial : ℕ)
  | closed (fd : ℤ) (owner : Owner) (serial : ℕ)
  | badClose (fd : ℤ)
  deriving DecidableEq

/-- The life of the listener. -/
inductive Phase where
  | before
  | alive
  | destroyed
  deriving DecidableEq

structure State where
  table : ℤ → Option Fd
  nextSerial : ℕ
  log : List Event
  phase : Phase
  handler : ℤ
  idlefd : ℤ
  newConnectioncb : Bool

/-- The outcome of a system call that gives out a descriptor. -/
inductive Outcome where
  | fd (d : ℤ)
  | failed (errno : ℤ)
  deriving DecidableEq

def EMFILE : ℤ := 24

/-- What the rest of the program does. -/
inductive Deed where
  | opens (d : ℤ)
  | closes (d : ℤ)
  | setNewConnectionCallback (set : Bool)

/-- The outcomes of the system calls in one call of `accept`, and what the rest of the program does
before the second and the third of those that give out a descriptor. -/
structure Outcomes where
  accept4 : Outcome
  beforeAccept : List Deed
  accept : Outcome
  beforeOpen : List Deed
  opened : Outcome

inductive Op where
  | deed (e : Deed)
  | construct (socket : ℤ) (opened : Outcome)
  | accept (o : Outcomes)
  | destroy

namespace State

variable (s : State)

/-- The kernel gives out a descriptor. -/
def give (owner : Owner) (d : ℤ) : State :=
  { s with
    table := Function.update s.table d (some ⟨owner, s.nextSerial⟩)
    nextSerial := s.nextSerial + 1 }

/-- `::open`, with what it returns. -/
def sysOpen : Outcome → State × ℤ
  | .fd d => (s.give .listener d, d)
  | .failed _ => (s, -1)

/-- `::accept4` and `::accept`. -/
def sysAccept : Outcome → State × ℤ
  | .fd d => ({ s.give .listener d with log := .returned d s.nextSerial :: s.log }, d)
  | .failed _ => (s, -1)

/-- `::close`, by the listener. -/
def sysClose (d : ℤ) : State :=
  match s.table d with
  | some fd => { s with
      table := Function.update s.table d none
      log := .closed d fd.owner fd.serial :: s.log }
  | none => { s with log := .badClose d :: s.log }

/-- The callback is invoked: the descriptor is the program's. -/
def pass (d : ℤ) : State :=
  match s.table d with
  | some fd => { s with
      table := Function.update s.table d (some ⟨.program, fd.serial⟩)
      log := .passed d fd.serial :: s.log }
  | none => s

def deed : Deed → State
  | .opens d => s.give .program d
  | .closes d => { s with table := Function.update s.table d none }
  | .setNewConnectionCallback set => { s with newConnectioncb := set }

def deeds (s : State) : List Deed → State
  | [] => s
  | e :: es => (s.deed e).deeds es

/-- The constructor. If there is no socket, setting its options ends the process. -/
def construct (socket : ℤ) (opened : Outcome) : State :=
  let s := s.give .listener socket
  let (s, idlefd) := s.sysOpen opened
  { s with phase := .alive, handler := socket, idlefd := idlefd, newConnectioncb := false }

/-- `::close(idlefd_)`. -/
def closeIdle : State := s.sysClose s.idlefd

/-- `idlefd_ = ::accept(..)`. -/
def acceptIdle (o : Outcome) : State :=
  let (s, fd) := s.sysAccept o
  { s with idlefd := fd }

/-- `idlefd_ = ::open("/dev/null", ..)`. -/
def openIdle (o : Outcome) : State :=
  let (s, fd) := s.sysOpen o
  { s with idlefd := fd }

/-- `ListenSocket::accept`. -/
def accept (o : Outcomes) : State :=
  let (s, ret) := s.sysAccept o.accept4
  if ret = -1 then
    if o.accept4 = .failed EMFILE then
      let s := s.closeIdle
      let s := s.deeds o.beforeAccept
      let s := s.acceptIdle o.accept
      let s := s.closeIdle
      let s := s.deeds o.beforeOpen
      s.openIdle o.opened
    else s
  else if s.newConnectioncb then s.pass ret
  else s.sysClose ret

/-- The destructor. The base class has none, and the socket stays open. -/
def destroy : State := { s.closeIdle with phase := .destroyed }

def exec : Op → Except Fault (State × Unit)
  | .deed e => .ok (s.deed e, ())
  | .construct socket opened => .ok (s.construct socket opened, ())
  | .accept o => .ok (s.accept o, ())
  | .destroy => .ok (s.destroy, ())

/-! What the calls leave alone. -/

@[simp] theorem sysClose_frame (d : ℤ) : (s.sysClose d).phase = s.phase ∧
    (s.sysClose d).handler = s.handler ∧ (s.sysClose d).idlefd = s.idlefd := by
  unfold sysClose
  split <;> exact ⟨rfl, rfl, rfl⟩

@[simp] theorem pass_frame (d : ℤ) : (s.pass d).phase = s.phase ∧
    (s.pass d).handler = s.handler ∧ (s.pass d).idlefd = s.idlefd := by
  unfold pass
  split <;> exact ⟨rfl, rfl, rfl⟩

@[simp] theorem deed_frame (e : Deed) : (s.deed e).phase = s.phase ∧
    (s.deed e).handler = s.handler ∧ (s.deed e).idlefd = s.idlefd := by
  cases e <;> exact ⟨rfl, rfl, rfl⟩

@[simp] theorem deeds_frame (s : State) : ∀ es : List Deed, (s.deeds es).phase = s.phase ∧
    (s.deeds es).handler = s.handler ∧ (s.deeds es).idlefd = s.idlefd
  | [] => ⟨rfl, rfl, rfl⟩
  | e :: es => by
    obtain ⟨hp, hh, hi⟩ := s.deed_frame e
    obtain ⟨hp', hh', hi'⟩ := deeds_frame (s.deed e) es
    exact ⟨hp'.trans hp, hh'.trans hh, hi'.trans hi⟩

@[simp] theorem acceptIdle_frame (o : Outcome) : (s.acceptIdle o).phase = s.phase ∧
    (s.acceptIdle o).handler = s.handler := by
  cases o <;> exact ⟨rfl, rfl⟩

@[simp] theorem openIdle_frame (o : Outcome) : (s.openIdle o).phase = s.phase ∧
    (s.openIdle o).handler = s.handler := by
  cases o <;> exact ⟨rfl, rfl⟩

end State

/-- A process without descriptors. -/
def init : State where
  table _ := none
  nextSerial := 0
  log := []
  phase := .before
  handler := -1
  idlefd := -1
  newConnectioncb := false

/-! ### What the kernel and the program keep to -/

/-- **What the kernel promises**: a descriptor that is given out is a number that is not in use. -/
def Fresh (s : State) : Outcome → Prop
  | .fd d => 0 ≤ d ∧ s.table d = none
  | .failed _ => True

/-- **What the program promises**: it closes descriptors of its own. -/
def DeedAdmits (s : State) : Deed → Prop
  | .opens d => Fresh s (.fd d)
  | .closes d => ∃ serial, s.table d = some ⟨.program, serial⟩
  | .setNewConnectionCallback _ => True

def DeedsAdmit : State → List Deed → Prop
  | _, [] => True
  | s, e :: es => DeedAdmits s e ∧ DeedsAdmit (s.deed e) es

/-- The listener is constructed once and destroyed once, and the outcomes of the system calls of
`accept`, up to the last that is made, are fresh. -/
def Admits (s : State) : Op → Prop
  | .deed e => DeedAdmits s e
  | .construct socket opened =>
    s.phase = .before ∧ Fresh s (.fd socket) ∧ Fresh (s.give .listener socket) opened
  | .accept o =>
    s.phase = .alive ∧ Fresh s o.accept4 ∧
      (o.accept4 = .failed EMFILE →
        let s₁ := s.closeIdle
        let s₂ := s₁.deeds o.beforeAccept
        let s₃ := (s₂.acceptIdle o.accept).closeIdle
        let s₄ := s₃.deeds o.beforeOpen
        DeedsAdmit s₁ o.beforeAccept ∧ Fresh s₂ o.accept ∧ DeedsAdmit s₃ o.beforeOpen ∧
          Fresh s₄ o.opened)
  | .destroy => s.phase = .alive

end Chaining.Net.Listen
