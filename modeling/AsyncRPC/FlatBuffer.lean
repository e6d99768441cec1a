import AsyncRPC.ByteArray
import AsyncRPC.Lib.Run

/-!
# What a ByteArray is for

A flat array of bytes with a cursor: a write overwrites at the cursor and extends the array where it
runs past the end, a read copies from the cursor on. The array is as long as its capacity, of which
the first `size` bytes are data; it grows by whole blocks, whose content is what the allocator left.
-/

namespace AsyncRPC

open Blocks

structure FlatBuffer where
  data : List UInt8
  position : Nat
  size : Nat
  baseSize : Nat
  allocated : Nat
  deriving Repr, DecidableEq

/-- One use of the buffer. `getWriteBuffers` comes with the bytes its buffers are then filled with. -/
inductive BufferOp
  | write (buf : List UInt8)
  | read (size : Nat)
  | setPosition (v : Nat)
  | clear
  | getWriteBuffers (bytes : List UInt8)
  | getReadBuffers (len : Nat)
  | toString
  deriving Repr, DecidableEq

inductive BufferObs
  | done
  | bytes (bs : List UInt8)
  | buffers (len : Nat) (bs : List UInt8)
  | outOfRange
  deriving Repr, DecidableEq

namespace FlatBuffer

variable (heap : Heap)

def create (size : Nat) : FlatBuffer :=
  { data := (Node.alloc heap 0 size).ptr, position := 0, size := 0, baseSize := size, allocated := 1 }

def grow (fb : FlatBuffer) (n : Nat) : FlatBuffer :=
  let count := (fb.position + n - fb.data.length + fb.baseSize - 1) / fb.baseSize
  { fb with
    data := fb.data ++
      (List.range count).flatMap fun i => (Node.alloc heap (fb.allocated + i) fb.baseSize).ptr
    allocated := fb.allocated + count }

/-- Room for the bytes, then the bytes over what is there. -/
def put (fb : FlatBuffer) (bytes : List UInt8) : FlatBuffer :=
  let fb := fb.grow heap bytes.length
  { fb with data := overwrite fb.position bytes fb.data }

def moveTo (fb : FlatBuffer) (v : Nat) : FlatBuffer :=
  { fb with position := v, size := max fb.size v }

def peek (fb : FlatBuffer) (n : Nat) : List UInt8 := slice fb.position n fb.data

def readable (fb : FlatBuffer) : Nat := fb.size - fb.position

def step (fb : FlatBuffer) : BufferOp → FlatBuffer × BufferObs
  | .write buf => ((fb.put heap buf).moveTo (fb.position + buf.length), .done)
  | .read n => ({ fb with position := fb.position + n }, .bytes (fb.peek n))
  | .setPosition v => if v > fb.data.length then (fb, .outOfRange) else (fb.moveTo v, .done)
  | .clear => ({ fb with data := fb.data.take fb.baseSize, position := 0, size := 0 }, .done)
  | .getWriteBuffers bytes => (fb.put heap bytes, .buffers bytes.length bytes)
  | .getReadBuffers len =>
      (fb, .buffers (min len fb.readable) (fb.peek (min len fb.readable)))
  | .toString => (fb, .bytes (fb.peek fb.readable))

/-- A read asks for no more than is readable, and a string is built of fewer than `2 ^ 53` bytes. -/
def Allowed (fb : FlatBuffer) : BufferOp → Prop
  | .read n => n ≤ fb.readable
  | .toString => fb.readable < 2 ^ 53
  | _ => True

def run (fb : FlatBuffer) : List BufferOp → FlatBuffer × List BufferObs
  | [] => (fb, [])
  | op :: ops =>
      let (fb, obs) := fb.step heap op
      let (fb, rest) := run fb ops
      (fb, obs :: rest)

def AllowedRun (fb : FlatBuffer) (ops : List BufferOp) : Prop :=
  Transition.AllSteps (fun fb op => (fb.step heap op).1) Allowed fb ops

end FlatBuffer

namespace ByteArray

variable (heap : Heap)

/-- One use of a `ByteArray`. An `out_of_range` is thrown before anything is assigned, so the caller
who catches it has the array as it was. -/
def step (ba : ByteArray) : BufferOp → Except Fault (ByteArray × BufferObs)
  | .write buf => do
      let ba ← ba.write heap buf
      .ok (ba, .done)
  | .read n => do
      let (bs, ba) ← ba.read n
      .ok (ba, .bytes bs)
  | .setPosition v =>
      match ba.setPosition v with
      | .error .outOfRange => .ok (ba, .outOfRange)
      | .error fault => .error fault
      | .ok ba => .ok (ba, .done)
  | .clear => .ok (ba.clear, .done)
  | .getWriteBuffers bytes => do
      let (n, buffers, ba) ← ba.getWriteBuffers heap [] bytes.length
      let ba := ba.fill buffers bytes
      .ok (ba, .buffers n (ba.gather buffers))
  | .getReadBuffers len => do
      let (n, buffers) ← ba.getReadBuffers [] len
      .ok (ba, .buffers n (ba.gather buffers))
  | .toString => do
      let bs ← ba.toString
      .ok (ba, .bytes bs)

def run (ba : ByteArray) : List BufferOp → Except Fault (ByteArray × List BufferObs)
  | [] => .ok (ba, [])
  | op :: ops => do
      let (ba, obs) ← ba.step heap op
      let (ba, rest) ← run ba ops
      .ok (ba, obs :: rest)

/-- The shape every operation keeps: equal nodes, counters in order, and `curr_` at the node of the
cursor, which is null exactly at the end of the capacity. -/
structure Inv (ba : ByteArray) : Prop where
  base_pos : 0 < ba.baseSize
  head : ba.nodes ≠ []
  uniform : ∀ node ∈ ba.nodes, node.size = ba.baseSize
  capacity_eq : ba.capacity = ba.baseSize * ba.nodes.length
  position_le : ba.position ≤ ba.size
  size_le : ba.size ≤ ba.capacity
  curr_eq : ba.curr
    = if ba.position = ba.capacity then none else some (ba.position / ba.baseSize)

def flat (ba : ByteArray) : FlatBuffer :=
  { data := (ba.nodes.map Node.ptr).flatten
    position := ba.position
    size := ba.size
    baseSize := ba.baseSize
    allocated := ba.allocated }

def unread (ba : ByteArray) : List UInt8 := ba.flat.peek ba.flat.readable

end ByteArray

end AsyncRPC
