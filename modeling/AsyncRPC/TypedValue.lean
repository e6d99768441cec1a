import AsyncRPC.ByteArrayCodec

/-!
# Typed values in a ByteArray

The typed writers and readers, paired: a sequence of writes and the sequence of reads that goes with
it.
-/

namespace AsyncRPC

inductive Codec
  | fint8
  | fuint8
  | fint16
  | fuint16
  | fint32
  | fuint32
  | fint64
  | fuint64
  | float
  | double
  | int32
  | uint32
  | int64
  | uint64
  | stringF64
  | stringVint
  deriving Repr, DecidableEq

namespace Codec

abbrev Val : Codec → Type
  | .fint8 | .fuint8 => BitVec 8
  | .fint16 | .fuint16 => BitVec 16
  | .fint32 | .fuint32 | .float | .int32 | .uint32 => BitVec 32
  | .fint64 | .fuint64 | .double | .int64 | .uint64 => BitVec 64
  | .stringF64 | .stringVint => List UInt8

/-- A string is no longer than a `std::string` can be. -/
def Valid : (c : Codec) → c.Val → Prop
  | .stringF64, value | .stringVint, value => value.length < 2 ^ 63
  | _, _ => True

variable (host : ByteOrder) (heap : Heap)

def write : (c : Codec) → c.Val → ByteArray → Except Fault ByteArray
  | .fint8, value, ba => ba.writeFint8 host heap value
  | .fuint8, value, ba => ba.writeFuint8 host heap value
  | .fint16, value, ba => ba.writeFint16 host heap value
  | .fuint16, value, ba => ba.writeFuint16 host heap value
  | .fint32, value, ba => ba.writeFint32 host heap value
  | .fuint32, value, ba => ba.writeFuint32 host heap value
  | .fint64, value, ba => ba.writeFint64 host heap value
  | .fuint64, value, ba => ba.writeFuint64 host heap value
  | .float, value, ba => ba.writeFloat host heap value
  | .double, value, ba => ba.writeDouble host heap value
  | .int32, value, ba => ba.writeInt32 heap value
  | .uint32, value, ba => ba.writeUint32 heap value
  | .int64, value, ba => ba.writeInt64 heap value
  | .uint64, value, ba => ba.writeUint64 heap value
  | .stringF64, value, ba => ba.writeStringF64 host heap value
  | .stringVint, value, ba => ba.writeStringVint heap value

def read : (c : Codec) → ByteArray → Except Fault (c.Val × ByteArray)
  | .fint8, ba => ba.readFint8 host
  | .fuint8, ba => ba.readFuint8 host
  | .fint16, ba => ba.readFint16 host
  | .fuint16, ba => ba.readFuint16 host
  | .fint32, ba => ba.readFint32 host
  | .fuint32, ba => ba.readFuint32 host
  | .fint64, ba => ba.readFint64 host
  | .fuint64, ba => ba.readFuint64 host
  | .float, ba => ba.readFloat host
  | .double, ba => ba.readDouble host
  | .int32, ba => ba.readInt32 host
  | .uint32, ba => ba.readUint32 host
  | .int64, ba => ba.readInt64 host
  | .uint64, ba => ba.readUint64 host
  | .stringF64, ba => ba.readStringF64 host
  | .stringVint, ba => ba.readStringVint host

end Codec

/-- A value that one of the writers can be called with. -/
structure TypedValue where
  codec : Codec
  val : codec.Val
  valid : codec.Valid val

namespace TypedValue

variable (host : ByteOrder) (heap : Heap)

def typed (x : TypedValue) : (c : Codec) × c.Val := ⟨x.codec, x.val⟩

def writeAll (xs : List TypedValue) (ba : ByteArray) : Except Fault ByteArray :=
  xs.foldlM (fun ba x => x.codec.write host heap x.val ba) ba

def readAll : List Codec → ByteArray → Except Fault (List ((c : Codec) × c.Val) × ByteArray)
  | [], ba => .ok ([], ba)
  | c :: cs, ba => do
      let (value, ba) ← c.read host ba
      let (values, ba) ← readAll cs ba
      .ok (⟨c, value⟩ :: values, ba)

end TypedValue

end AsyncRPC
