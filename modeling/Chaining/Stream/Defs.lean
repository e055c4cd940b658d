import Mathlib.Algebra.Order.Floor.Semiring
import Mathlib.Data.Rat.Floor
import Chaining.Base.Search
import Chaining.Base.Window
import Chaining.Outcome

/-! # The byte buffer

`Buffer` keeps its readable bytes between two cursors of one container:

    0 ..... easyPrependSpace ..... readStartPosition ..... writeStartPosition ..... buff.size

Reading moves the first cursor on, appending the second; when there is no room behind the second,
the readable bytes are moved back to `easyPrependSpace` (`reformingBuffer`) and, if that is still
not enough, the container is resized (`ensureCapacity`).

Pointers into the container are indices into it. Sizes are natural numbers: in every state the
cursors are in the order of the picture, and then no unsigned subtraction of the source wraps. -/

namespace Chaining.Stream.Defs

open Chaining.Base.Search Chaining.Base.Window Chaining.Outcome

/-- `std::vector<char>`: its cells and, as a history that the source does not keep, the first index
and the number of bytes of every store so far. -/
structure ContentContainer where
  cells : List UInt8
  stores : List (ℕ × ℕ)

namespace ContentContainer

def size (v : ContentContainer) : ℕ := v.cells.length

/-- A store of consecutive bytes, as `memcpy`, `memmove` and `readv` do it. -/
def store (v : ContentContainer) (i : ℕ) (s : List UInt8) : Except Fault ContentContainer :=
  if i + s.length ≤ v.size then
    .ok { cells := splice v.cells i s, stores := v.stores ++ [(i, s.length)] }
  else .error .outOfBounds

/-- `vector::resize`: cut, or filled up with `'\0'`. -/
def resize (v : ContentContainer) (n : ℕ) : ContentContainer :=
  { v with cells := v.cells.take n ++ List.replicate (n - v.size) 0 }

end ContentContainer

structure Buffer where
  buff : ContentContainer
  readStartPosition : ℕ
  writeStartPosition : ℕ
  easyPrependSpace : ℕ
  expandFactor : ℚ

def initBufferSize : ℕ := 1024
def defaultPrependSize : ℕ := 64
def defaultExpandFactor : ℚ := 2

/-- `"\r\n"`. -/
def crlf : List UInt8 := [13, 10]

/-- `"\r\n\r\n"`. -/
def crlfDouble : List UInt8 := [13, 10, 13, 10]

/-- The size of the static array that takes what `readv` delivers beyond the container. -/
def tmpBuffSize : ℕ := 65536

namespace Buffer

/-- The constructor. -/
def new (initContainerSize : ℕ) (expandFactor : ℚ) (prependSize : ℕ) : Buffer where
  buff := { cells := List.replicate initContainerSize 0, stores := [] }
  readStartPosition := prependSize
  writeStartPosition := prependSize
  easyPrependSpace := prependSize
  expandFactor := expandFactor

variable (b : Buffer)

def readableSize : ℕ := b.writeStartPosition - b.readStartPosition

def prependableSize : ℕ := b.readStartPosition

/-- `Peek`, and the private `begin`: the address of the first readable byte. -/
def peek : ℕ := b.readStartPosition

/-- `begin2Write`: the address of the first byte behind the readable ones. -/
def begin2Write : ℕ := b.writeStartPosition

def retrieve (size : ℕ) : Buffer := { b with readStartPosition := b.readStartPosition + size }

def canWriteableDirection : ℕ := b.buff.size - b.writeStartPosition

def canWriteableTroughtReforming : ℕ :=
  b.canWriteableDirection + b.readStartPosition - b.easyPrependSpace

/-- The readable bytes are moved to `easyPrependSpace`; `memmove` reads them all before it writes. -/
def reformingBuffer : Except Fault Buffer := do
  let canReadSize := b.readableSize
  let buff ← b.buff.store b.easyPrependSpace (window b.buff.cells b.readStartPosition canReadSize)
  return { b with
    buff := buff
    readStartPosition := b.easyPrependSpace
    writeStartPosition := b.easyPrependSpace + canReadSize }

/-- `static_cast<size_t>(buff_.size() * expandFactor_)`. The product of the source is one of doubles; here
it is exact, without their rounding. -/
def factorExpand : ℕ := ⌊(b.buff.size : ℚ) * b.expandFactor⌋₊

def ensureCapacity (size : ℕ) : Except Fault Buffer := do
  if b.canWriteableDirection ≥ size then return b
  if b.canWriteableTroughtReforming ≥ size then return ← b.reformingBuffer
  let b ← b.reformingBuffer
  let needed := size - b.canWriteableDirection
  let realExpandSize := max needed b.factorExpand
  return { b with buff := b.buff.resize realExpandSize }

def append (str : List UInt8) : Except Fault Buffer := do
  let b ← b.ensureCapacity str.length
  let buff ← b.buff.store b.begin2Write str
  return { b with buff := buff, writeStartPosition := b.writeStartPosition + str.length }

def retrieveUtil (pos : ℕ) : Except Fault Buffer :=
  if pos > b.peek ∧ pos < b.begin2Write then .ok (b.retrieve (pos - b.peek))
  else .error .assertFailed

def retrieveAsString (size : ℕ) : Buffer × List UInt8 :=
  if b.readableSize < size then (b, [])
  else (b.retrieve size, window b.buff.cells b.peek size)

def retrieveAsStringUtil (pos : ℕ) : Except Fault (Buffer × List UInt8) :=
  if pos > b.peek ∧ pos < b.begin2Write then .ok (b.retrieveAsString (pos - b.peek))
  else .error .assertFailed

/-- The search both delimiters go through: `std::search` over the readable bytes, and null when it
answers their end. -/
def find (delimiter : List UInt8) : Option ℕ :=
  let pos := b.peek + search delimiter (window b.buff.cells b.peek b.readableSize)
  if pos ≠ b.begin2Write then some pos else none

def findCRLF : Option ℕ := b.find crlf

def findCRLFDouble : Option ℕ := b.find crlfDouble

/-- `readFromFD`, for an outcome of `readv`: a failure, or the bytes delivered, the first of them
into the room behind the readable bytes and the rest into the static array. -/
def readFromFD : Option (List UInt8) → Except Fault (Buffer × ℤ)
  | none => .ok (b, -1)
  | some data => do
    let room := b.canWriteableDirection
    let buff ← b.buff.store b.begin2Write (data.take room)
    let b := { b with buff := buff }
    if data.length > room then
      let b ← { b with writeStartPosition := b.buff.size }.append (data.drop room)
      return (b, (data.length : ℤ))
    else
      return ({ b with writeStartPosition := b.writeStartPosition + data.length },
        (data.length : ℤ))

end Buffer

/-! ### Calls -/

/-- A call of a member of `Buffer`; a position is given by its distance from `begin`, and a read from
a descriptor by the outcome of `readv`. -/
inductive Op where
  | append (str : List UInt8)
  | retrieve (size : ℕ)
  | retrieveAsString (size : ℕ)
  | retrieveUtil (offset : ℕ)
  | retrieveAsStringUtil (offset : ℕ)
  | findCRLF
  | findCRLFDouble
  | readFromFD (readv : Option (List UInt8))

/-- What a call answers; a position found is given by its distance from `begin`. -/
inductive Answer where
  | none
  | str (s : List UInt8)
  | pos (offset : Option ℕ)
  | count (n : ℤ)

/-- One call. -/
def exec (b : Buffer) : Op → Except Fault (Buffer × Answer)
  | .append s => do return (← b.append s, .none)
  | .retrieve n => .ok (b.retrieve n, .none)
  | .retrieveAsString n => .ok ((b.retrieveAsString n).1, .str (b.retrieveAsString n).2)
  | .retrieveUtil k => do return (← b.retrieveUtil (b.peek + k), .none)
  | .retrieveAsStringUtil k => do
    let (b', s) ← b.retrieveAsStringUtil (b.peek + k)
    return (b', .str s)
  | .findCRLF => .ok (b, .pos (b.findCRLF.map (· - b.peek)))
  | .findCRLFDouble => .ok (b, .pos (b.findCRLFDouble.map (· - b.peek)))
  | .readFromFD r => do
    let (b', n) ← b.readFromFD r
    return (b', .count n)

/-- **What a caller promises**: `retrieve` takes no more than there is, and a position passed the
`assert`s; and what the kernel promises: `readv` delivers no more than it was given room for. -/
def Admits (b : Buffer) : Op → Prop
  | .retrieve n => n ≤ b.readableSize
  | .retrieveUtil k => 0 < k ∧ k < b.readableSize
  | .retrieveAsStringUtil k => 0 < k ∧ k < b.readableSize
  | .readFromFD (some data) => data.length ≤ b.canWriteableDirection + tmpBuffSize
  | _ => True

end Chaining.Stream.Defs
