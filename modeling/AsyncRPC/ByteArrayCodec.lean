import AsyncRPC.ByteArray
import AsyncRPC.Lib.Radix

/-!
# Typed reads and writes of a ByteArray

Integers, signed or not, and floating-point numbers are their bit patterns. The host's byte order is
a parameter: `write(&value, sizeof(value))` copies the bytes as they lie in memory, and the readers
of more than one byte swap when `endian_`, which is always `RPC_LITTLE_ENDIAN`, is not the host's.
-/

namespace AsyncRPC

open Radix

inductive ByteOrder
  | little
  | big
  deriving Repr, DecidableEq

/-- The memory of an `n`-byte integer. -/
def ByteOrder.bytes (host : ByteOrder) (n v : Nat) : List UInt8 :=
  match host with
  | .little => leBytes n v
  | .big => (leBytes n v).reverse

/-- The integer a piece of memory holds. -/
def ByteOrder.value (host : ByteOrder) (bs : List UInt8) : Nat :=
  match host with
  | .little => ofLE bs
  | .big => ofLE bs.reverse

namespace ByteArray

variable (host : ByteOrder) (heap : Heap)

/-- `endian_`, set by the constructor and nowhere else. -/
def endian : ByteOrder := .little

section Fixed

/-- `write(&value, sizeof(value))` for an integer of `n` bytes. -/
def writeFixed {w : Nat} (n : Nat) (value : BitVec w) (ba : ByteArray) : Except Fault ByteArray :=
  ba.write heap (host.bytes n value.toNat)

def writeFint8 (value : BitVec 8) (ba : ByteArray) := ba.writeFixed host heap 1 value
def writeFuint8 (value : BitVec 8) (ba : ByteArray) := ba.writeFixed host heap 1 value
def writeFint16 (value : BitVec 16) (ba : ByteArray) := ba.writeFixed host heap 2 value
def writeFuint16 (value : BitVec 16) (ba : ByteArray) := ba.writeFixed host heap 2 value
def writeFint32 (value : BitVec 32) (ba : ByteArray) := ba.writeFixed host heap 4 value
def writeFuint32 (value : BitVec 32) (ba : ByteArray) := ba.writeFixed host heap 4 value
def writeFint64 (value : BitVec 64) (ba : ByteArray) := ba.writeFixed host heap 8 value
def writeFuint64 (value : BitVec 64) (ba : ByteArray) := ba.writeFixed host heap 8 value

/-- `int8_t value; read(&value, sizeof(value)); return value;` -/
def readByte (ba : ByteArray) : Except Fault (BitVec 8 × ByteArray) := do
  let (bs, ba) ← ba.read 1
  .ok (BitVec.ofNat 8 (host.value bs), ba)

def readFint8 (ba : ByteArray) := ba.readByte host
def readFuint8 (ba : ByteArray) := ba.readByte host

/-- The macro `XX(type)` for a type of `n` bytes. -/
def readFixed (n w : Nat) (ba : ByteArray) : Except Fault (BitVec w × ByteArray) := do
  let (bs, ba) ← ba.read n
  let v := host.value bs
  if endian = host then .ok (BitVec.ofNat w v, ba)
  else .ok (BitVec.ofNat w (byteSwap n v), ba)

def readFint16 (ba : ByteArray) := ba.readFixed host 2 16
def readFuint16 (ba : ByteArray) := ba.readFixed host 2 16
def readFint32 (ba : ByteArray) := ba.readFixed host 4 32
def readFuint32 (ba : ByteArray) := ba.readFixed host 4 32
def readFint64 (ba : ByteArray) := ba.readFixed host 8 64
def readFuint64 (ba : ByteArray) := ba.readFixed host 8 64

def writeFloat (value : BitVec 32) (ba : ByteArray) := ba.writeFuint32 host heap value
def writeDouble (value : BitVec 64) (ba : ByteArray) := ba.writeFuint64 host heap value
def readFloat (ba : ByteArray) := ba.readFuint32 host
def readDouble (ba : ByteArray) := ba.readFuint64 host

end Fixed

section Varint

def varintLoop {w : Nat} : Nat → BitVec w → Except Fault (List UInt8)
  | 0, _ => .error .tempOverrun
  | room + 1, value =>
      if 0x80#w ≤ value then do
        let temp ← varintLoop room (value >>> 7)
        .ok (UInt8.ofNat ((value &&& 0x7F#w) ||| 0x80#w).toNat :: temp)
      else .ok [UInt8.ofNat value.toNat]

def writeUint32 (value : BitVec 32) (ba : ByteArray) : Except Fault ByteArray := do
  let temp ← varintLoop 5 value
  ba.write heap temp

def writeUint64 (value : BitVec 64) (ba : ByteArray) : Except Fault ByteArray := do
  let temp ← varintLoop 10 value
  ba.write heap temp

/-- The loop over `i = 0, 7, …` below the width, with the rounds left. -/
def readVarintLoop {w : Nat} : Nat → Nat → BitVec w → ByteArray →
    Except Fault (BitVec w × ByteArray)
  | 0, _, value, ba => .ok (value, ba)
  | rounds + 1, i, value, ba => do
      let (temp, ba) ← ba.readFuint8 host
      if temp < 0x80#8 then .ok (value ||| (temp.setWidth w <<< i), ba)
      else readVarintLoop rounds (i + 7) (value ||| ((temp &&& 0x7F#8).setWidth w <<< i)) ba

def readUint32 (ba : ByteArray) : Except Fault (BitVec 32 × ByteArray) :=
  readVarintLoop host 5 0 0 ba

def readUint64 (ba : ByteArray) : Except Fault (BitVec 64 × ByteArray) :=
  readVarintLoop host 10 0 0 ba

def encodeZigzag32 (value : BitVec 32) : BitVec 32 := (value <<< 1) ^^^ value.sshiftRight 31
def encodeZigzag64 (value : BitVec 64) : BitVec 64 := (value <<< 1) ^^^ value.sshiftRight 63
def decodeZigzag32 (value : BitVec 32) : BitVec 32 := (value >>> 1) ^^^ -(value &&& 1#32)
def decodeZigzag64 (value : BitVec 64) : BitVec 64 := (value >>> 1) ^^^ -(value &&& 1#64)

def writeInt32 (value : BitVec 32) (ba : ByteArray) := ba.writeUint32 heap (encodeZigzag32 value)
def writeInt64 (value : BitVec 64) (ba : ByteArray) := ba.writeUint64 heap (encodeZigzag64 value)

def readInt32 (ba : ByteArray) : Except Fault (BitVec 32 × ByteArray) := do
  let (value, ba) ← ba.readUint32 host
  .ok (decodeZigzag32 value, ba)

def readInt64 (ba : ByteArray) : Except Fault (BitVec 64 × ByteArray) := do
  let (value, ba) ← ba.readUint64 host
  .ok (decodeZigzag64 value, ba)

end Varint

def writeStringF16 (value : List UInt8) (ba : ByteArray) : Except Fault ByteArray := do
  let ba ← ba.writeFuint16 host heap (BitVec.ofNat 16 value.length)
  ba.write heap value

def readStringF16 (ba : ByteArray) : Except Fault (List UInt8 × ByteArray) := do
  let (len, ba) ← ba.readFuint16 host
  let value ← resize len.toNat
  ba.read value.length

def writeStringWithoutLength (value : List UInt8) (ba : ByteArray) := ba.write heap value

def writeStringF64 (value : List UInt8) (ba : ByteArray) : Except Fault ByteArray := do
  let ba ← ba.writeFuint64 host heap (BitVec.ofNat 64 value.length)
  ba.write heap value

def readStringF64 (ba : ByteArray) : Except Fault (List UInt8 × ByteArray) := do
  let (len, ba) ← ba.readFuint64 host
  let value ← resize len.toNat
  ba.read value.length

def writeStringVint (value : List UInt8) (ba : ByteArray) : Except Fault ByteArray := do
  let ba ← ba.writeUint64 heap (BitVec.ofNat 64 value.length)
  ba.write heap value

def readStringVint (ba : ByteArray) : Except Fault (List UInt8 × ByteArray) := do
  let (len, ba) ← ba.readUint64 host
  let value ← resize len.toNat
  ba.read value.length

end ByteArray

end AsyncRPC
