import AsyncRPC.FlatBuffer
import AsyncRPC.Frame
import AsyncRPC.TypedValue

/-!
# The public operations of a ByteArray

All of them that are not const, but `readFromFile`, with any arguments. A reader is taken apart into its
calls of `read`, each with the size it asks for, so that one can speak of every single call and of the
array it finds.
-/

namespace AsyncRPC

/-- What a reader does: return, throw `std::length_error`, or call `read` and go on with the bytes. -/
inductive Reader (α : Type)
  | ret (value : α)
  | lengthError
  | read (size : Nat) (next : List UInt8 → Reader α)

namespace Reader

variable {α β : Type}

def bind : Reader α → (α → Reader β) → Reader β
  | .ret value, f => f value
  | .lengthError, _ => .lengthError
  | .read size next, f => .read size fun bs => (next bs).bind f

def run : Reader α → ByteArray → Except Fault (α × ByteArray)
  | .ret value, ba => .ok (value, ba)
  | .lengthError, _ => .error .lengthError
  | .read size next, ba => do
      let (bs, ba) ← ba.read size
      (next bs).run ba

/-- The array afterwards. An exception leaves the caller with what was read until then. -/
def left : Reader α → ByteArray → Except Fault ByteArray
  | .ret _, ba => .ok ba
  | .lengthError, ba => .ok ba
  | .read size next, ba => do
      let (bs, ba) ← ba.read size
      (next bs).left ba

/-- The calls of `read`: the size each asks for and the array it finds. -/
def calls : Reader α → ByteArray → List (Nat × ByteArray)
  | .ret _, _ => []
  | .lengthError, _ => []
  | .read size next, ba =>
      (size, ba) ::
        match ba.read size with
        | .ok (bs, ba) => (next bs).calls ba
        | .error _ => []

variable (host : ByteOrder)

def byte : Reader (BitVec 8) := .read 1 fun bs => .ret (BitVec.ofNat 8 (host.value bs))

def fixed (n w : Nat) : Reader (BitVec w) :=
  .read n fun bs =>
    if ByteArray.endian = host then .ret (BitVec.ofNat w (host.value bs))
    else .ret (BitVec.ofNat w (Radix.byteSwap n (host.value bs)))

def varintLoop {w : Nat} : Nat → Nat → BitVec w → Reader (BitVec w)
  | 0, _, value => .ret value
  | rounds + 1, i, value =>
      (byte host).bind fun temp =>
        if temp < 0x80#8 then .ret (value ||| (temp.setWidth w <<< i))
        else varintLoop rounds (i + 7) (value ||| ((temp &&& 0x7F#8).setWidth w <<< i))

def resize (n : Nat) : Reader (List UInt8) :=
  if n < 2 ^ 63 then .ret (List.replicate n 0) else .lengthError

def string {w : Nat} (length : Reader (BitVec w)) : Reader (List UInt8) :=
  length.bind fun len => (resize len.toNat).bind fun value => .read value.length .ret

end Reader

inductive ReadOp
  | read (size : Nat)
  | codec (c : Codec)
  | stringF16
  | stringF32
  deriving Repr, DecidableEq

namespace ReadOp

abbrev Val : ReadOp → Type
  | .read _ | .stringF16 | .stringF32 => List UInt8
  | .codec c => c.Val

variable (host : ByteOrder)

def perform : (op : ReadOp) → ByteArray → Except Fault (op.Val × ByteArray)
  | .read size, ba => ba.read size
  | .codec c, ba => c.read host ba
  | .stringF16, ba => ba.readStringF16 host
  | .stringF32, ba => ba.readStringF32 host

def codecReader : (c : Codec) → Reader c.Val
  | .fint8 | .fuint8 => .byte host
  | .fint16 | .fuint16 => .fixed host 2 16
  | .fint32 | .fuint32 | .float => .fixed host 4 32
  | .fint64 | .fuint64 | .double => .fixed host 8 64
  | .uint32 => .varintLoop host 5 0 0
  | .uint64 => .varintLoop host 10 0 0
  | .int32 => (Reader.varintLoop host 5 0 0).bind fun value => .ret (ByteArray.decodeZigzag32 value)
  | .int64 => (Reader.varintLoop host 10 0 0).bind fun value => .ret (ByteArray.decodeZigzag64 value)
  | .stringF64 => .string (.fixed host 8 64)
  | .stringVint => .string (Reader.varintLoop host 10 0 (0 : BitVec 64))

def reader : (op : ReadOp) → Reader op.Val
  | .read size => .read size .ret
  | .codec c => codecReader host c
  | .stringF16 => .string (.fixed host 2 16)
  | .stringF32 => .string (.fixed host 4 32)

end ReadOp

inductive WriteOp
  | write (buf : List UInt8)
  | codec (c : Codec) (value : c.Val)
  | stringF16 (value : List UInt8)
  | stringF32 (value : List UInt8)
  | stringWithoutLength (value : List UInt8)

def WriteOp.perform (host : ByteOrder) (heap : Heap) : WriteOp → ByteArray → Except Fault ByteArray
  | .write buf, ba => ba.write heap buf
  | .codec c value, ba => c.write host heap value ba
  | .stringF16 value, ba => ba.writeStringF16 host heap value
  | .stringF32 value, ba => ba.writeStringF32 host heap value
  | .stringWithoutLength value, ba => ba.writeStringWithoutLength heap value

/-- A public operation with its arguments. What `getWriteBuffers` hands out the caller may fill with
some bytes, `len` of them at most. -/
inductive ArrayOp
  | write (op : WriteOp)
  | read (op : ReadOp)
  | setPosition (v : Nat)
  | clear
  | getWriteBuffers (len : Nat) (bytes : List UInt8)

namespace ByteArray

variable (host : ByteOrder) (heap : Heap)

/-- The array after an operation, for a caller who catches the exceptions. -/
def perform (ba : ByteArray) : ArrayOp → Except Fault ByteArray
  | .write op => op.perform host heap ba
  | .read op => (op.reader host).left ba
  | .setPosition v =>
      match ba.setPosition v with
      | .error .outOfRange => .ok ba
      | .error fault => .error fault
      | .ok ba => .ok ba
  | .clear => .ok ba.clear
  | .getWriteBuffers len bytes => do
      let (_, buffers, ba) ← ba.getWriteBuffers heap [] len
      .ok (ba.fill buffers (bytes.take len))

/-- The counters are in order, so that neither difference of them wraps. -/
structure Ordered (ba : ByteArray) : Prop where
  position_le : ba.position ≤ ba.size
  size_le : ba.size ≤ ba.capacity
  readable_eq : ba.getReadableSize = ba.size - ba.position
  capacity_eq : ba.getCapacity = ba.capacity - ba.position

/-- `read(buf, size)` leaves the cursor where it is and does not run out of nodes. -/
def Refuses (ba : ByteArray) (size : Nat) : Prop :=
  ba.read size ≠ .error .nullNode ∧
    ∀ bs ba', ba.read size = .ok (bs, ba') → ba'.position = ba.position

/-- Every call of `read` that asks for more than `getReadableSize()` is refused. -/
def RefusesExcess (ba : ByteArray) : ArrayOp → Prop
  | .read op =>
      ∀ call ∈ (op.reader host).calls ba, call.2.getReadableSize < call.1 → call.2.Refuses call.1
  | _ => True

/-- No call of `read` asks for more than `getReadableSize()`. -/
def AsksWithin (ba : ByteArray) : ArrayOp → Prop
  | .read op => ∀ call ∈ (op.reader host).calls ba, call.1 ≤ call.2.getReadableSize
  | _ => True

/-- Through a sequence of operations on a new array the counters stay in order, and a read of too
much is refused. -/
structure Guarded (base : Nat) (ops : List ArrayOp) : Prop where
  ordered : Transition.AllStates (Transition.attempt (perform host heap)) (Transition.Live Ordered)
    (.ok (create heap base)) ops
  refuses : Transition.AllSteps (Transition.attempt (perform host heap))
    (Transition.WhenLive (RefusesExcess host)) (.ok (create heap base)) ops

end ByteArray

end AsyncRPC
