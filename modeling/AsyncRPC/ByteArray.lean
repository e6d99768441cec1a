import AsyncRPC.Lib.Blocks
import AsyncRPC.Lib.Word

/-!
# ByteArray

The chain of nodes from `head_` is a list and a node pointer is an index into it, `none` for null.
Following a null pointer is a fault. `new char[size]` leaves memory as it is, so what a fresh node
holds is an input: `heap i` is the content of the `i`-th node allocated.

Sizes are natural numbers; `ceil(1.0 * size / base_size_)` is the exact quotient, which it is below
`2 ^ 53`. Only `getReadableSize` and `getCapacity` subtract on values that could be out of order, and
they wrap as `size_t` does.
-/

namespace AsyncRPC

open Blocks Word

/-- What can end a call early: a null node followed, `std::out_of_range`, `std::length_error`, the
`temp` of a varint written past its end. -/
inductive Fault
  | nullNode
  | outOfRange
  | lengthError
  | tempOverrun
  deriving Repr, DecidableEq

structure Node where
  ptr : List UInt8
  deriving Repr, DecidableEq

def Node.size (node : Node) : Nat := node.ptr.length

/-- `memcpy(node->ptr + off, buf, n)` -/
def Node.copyIn (off : Nat) (buf : List UInt8) (node : Node) : Node :=
  { ptr := overwrite off buf node.ptr }

abbrev Heap := Nat → Nat → UInt8

def Node.alloc (heap : Heap) (i size : Nat) : Node :=
  { ptr := (List.range size).map (heap i) }

structure ByteArray where
  nodes : List Node
  curr : Option Nat
  baseSize : Nat
  position : Nat
  capacity : Nat
  size : Nat
  /-- How many nodes were ever allocated, which picks the content of the next one. -/
  allocated : Nat
  deriving Repr, DecidableEq

/-- `struct iovec`: `len` bytes from `off` in one node. -/
structure Iovec where
  node : Nat
  off : Nat
  len : Nat
  deriving Repr, DecidableEq

namespace ByteArray

variable (heap : Heap)

def create (size : Nat) : ByteArray :=
  { nodes := [Node.alloc heap 0 size]
    curr := some 0
    baseSize := size
    position := 0
    capacity := size
    size := 0
    allocated := 1 }

def getReadableSize (ba : ByteArray) : Nat := subSize ba.size ba.position

def getCapacity (ba : ByteArray) : Nat := subSize ba.capacity ba.position

def chain (ba : ByteArray) : List Nat := ba.nodes.map Node.size

/-- `p->size`, with the index of the node `p` points to. -/
def deref (ba : ByteArray) (p : Option Nat) : Except Fault (Nat × Nat) :=
  match p with
  | none => .error .nullNode
  | some i =>
      match ba.chain[i]? with
      | none => .error .nullNode
      | some size => .ok (i, size)

/-- `memcpy(buf, node->ptr + off, n)` -/
def copyOut (ba : ByteArray) (i off n : Nat) : List UInt8 :=
  slice off n ((ba.nodes.map Node.ptr).getD i [])

def addCapacity (ba : ByteArray) (size : Nat) : ByteArray :=
  if size ≤ 0 then ba
  else
    let oldCapacity := ba.getCapacity
    if oldCapacity ≥ size then ba
    else
      let size := size - oldCapacity
      let count := (size + ba.baseSize - 1) / ba.baseSize
      let first := if count = 0 then none else some ba.nodes.length
      { ba with
        nodes := ba.nodes ++
          (List.range count).map fun i => Node.alloc heap (ba.allocated + i) ba.baseSize
        capacity := ba.capacity + count * ba.baseSize
        curr := if oldCapacity = 0 then first else ba.curr
        allocated := ba.allocated + count }

/-- The loop that `write`, `read` and the `get*Buffers` share: node by node from `curr` at `npos`,
with `ncap` bytes to the end of the node, hand each piece of the `size` bytes to `act` (node, offset
in the node, offset `bpos` in the buffer, length). Ends with the node pointer after the last byte.
The chain bounds the rounds. -/
def chunkLoop {σ : Type} (chain : List Nat) (act : σ → Nat → Nat → Nat → Nat → σ) :
    Nat → σ → Nat → Nat → Nat → Nat → Nat → Except Fault (σ × Option Nat)
  | 0, _, _, _, _, _, _ => .error .nullNode
  | rounds + 1, s, curr, npos, ncap, bpos, size =>
      let next := if curr + 1 < chain.length then some (curr + 1) else none
      if ncap ≥ size then
        -- the last piece: step on to the next node if it fills this one
        .ok (act s curr npos bpos size,
          if chain[curr]? = some (size + npos) then next else some curr)
      else
        let s := act s curr npos bpos ncap
        match chain[curr + 1]? with
        | none => .error .nullNode
        | some nextSize =>
            chunkLoop chain act rounds s (curr + 1) 0 nextSize (bpos + ncap) (size - ncap)

/-- Enter the loop at the cursor, or at another `position` of the node `curr_` points to. -/
def chunks {σ : Type} (ba : ByteArray) (position : Nat) (act : σ → Nat → Nat → Nat → Nat → σ)
    (s : σ) (size : Nat) : Except Fault (σ × Option Nat) := do
  let npos := position % ba.baseSize
  let (curr, currSize) ← ba.deref ba.curr
  chunkLoop ba.chain act ba.nodes.length s curr npos (currSize - npos) 0 size

def write (ba : ByteArray) (buf : List UInt8) : Except Fault ByteArray :=
  if buf.length ≤ 0 then .ok ba
  else do
    let ba := ba.addCapacity heap buf.length
    let copy := fun (nodes : List Node) i off bpos n =>
      nodes.modify i (Node.copyIn off (slice bpos n buf))
    let (nodes, curr) ← ba.chunks ba.position copy ba.nodes buf.length
    let position := ba.position + buf.length
    .ok { ba with
      nodes := nodes
      curr := curr
      position := position
      size := if position > ba.size then position else ba.size }

def read (ba : ByteArray) (size : Nat) : Except Fault (List UInt8 × ByteArray) :=
  if size ≤ 0 then .ok ([], ba)
  else do
    let copy := fun (out : List UInt8) i off (_ : Nat) n => out ++ ba.copyOut i off n
    let (out, curr) ← ba.chunks ba.position copy [] size
    .ok (out, { ba with curr := curr, position := ba.position + size })

/-- The private `read(buf, size, position) const`; a refused read leaves `buf` as it is. -/
def readAt (ba : ByteArray) (buf : List UInt8) (position : Nat) : Except Fault (List UInt8) :=
  if buf.length > subSize ba.size position then .ok buf
  else do
    let copy := fun (out : List UInt8) i off (_ : Nat) n => out ++ ba.copyOut i off n
    let (out, _) ← ba.chunks position copy [] buf.length
    .ok out

/-- `head_` is kept, with what it holds; the other nodes are deleted. -/
def clear (ba : ByteArray) : ByteArray :=
  { ba with
    nodes := ba.nodes.take 1
    curr := some 0
    position := 0
    capacity := ba.baseSize
    size := 0 }

/-- The walk of `setPosition` from the `i`-th node on. -/
def seek : List Nat → Nat → Nat → Except Fault (Option Nat)
  | [], _, _ => .error .nullNode
  | size :: rest, i, v =>
      if v > size then seek rest (i + 1) (v - size)
      else if v = size then .ok (if rest.isEmpty then none else some (i + 1))
      else .ok (some i)

def setPosition (ba : ByteArray) (v : Nat) : Except Fault ByteArray :=
  if v > ba.capacity then .error .outOfRange
  else do
    let curr ← seek ba.chain 0 v
    .ok { ba with
      position := v
      size := if v > ba.size then v else ba.size
      curr := curr }

/-- `std::string::resize(n)`, which throws past the longest string there can be. -/
def resize (n : Nat) : Except Fault (List UInt8) :=
  if n < 2 ^ 63 then .ok (List.replicate n 0) else .error .lengthError

def toString (ba : ByteArray) : Except Fault (List UInt8) := do
  let str ← resize ba.getReadableSize
  if str.isEmpty then .ok str
  else ba.readAt str ba.position

def pushIovec (buffers : List Iovec) (i off _bpos n : Nat) : List Iovec :=
  buffers ++ [⟨i, off, n⟩]

def getReadBuffers (ba : ByteArray) (buffers : List Iovec) (len : Nat) :
    Except Fault (Nat × List Iovec) :=
  let len := if ba.getReadableSize < len then ba.getReadableSize else len
  if len = 0 then .ok (0, buffers)
  else do
    let (buffers, _) ← ba.chunks ba.position pushIovec buffers len
    .ok (len, buffers)

/-- The overload with a `position`, which it only uses for the offset in the node of the cursor. -/
def getReadBuffersAt (ba : ByteArray) (buffers : List Iovec) (len position : Nat) :
    Except Fault (Nat × List Iovec) :=
  let len := if len > ba.getReadableSize then ba.getReadableSize else len
  if len = 0 then .ok (0, buffers)
  else do
    let (buffers, _) ← ba.chunks position pushIovec buffers len
    .ok (len, buffers)

def getWriteBuffers (ba : ByteArray) (buffers : List Iovec) (len : Nat) :
    Except Fault (Nat × List Iovec × ByteArray) :=
  if len = 0 then .ok (0, buffers, ba)
  else do
    let ba := ba.addCapacity heap len
    let (buffers, _) ← ba.chunks ba.position pushIovec buffers len
    .ok (len, buffers, ba)

def gather (ba : ByteArray) (buffers : List Iovec) : List UInt8 :=
  buffers.flatMap fun v => ba.copyOut v.node v.off v.len

/-- Fill a list of buffers from the front, as `readv` and `recvmsg` do. -/
def fill (ba : ByteArray) : List Iovec → List UInt8 → ByteArray
  | [], _ => ba
  | v :: buffers, bytes =>
      fill { ba with nodes := ba.nodes.modify v.node (Node.copyIn v.off (bytes.take v.len)) }
        buffers (bytes.drop v.len)

end ByteArray

end AsyncRPC
