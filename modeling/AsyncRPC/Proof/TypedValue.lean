import AsyncRPC.Proof.ByteArrayCodec
import AsyncRPC.TypedValue

/-!
# Typed values come back

On a little-endian host every reader takes back what its writer has put, and so a sequence of reads
takes back a sequence of writes, wherever the values lie across the nodes.
-/

namespace AsyncRPC

open Radix
open AsyncRPC.ByteArray (Holds Writes Reads)

section Codecs

variable {heap : Heap}

/-- The length in eight bytes, then the string. -/
def stringF64Bytes (value : List UInt8) : List UInt8 :=
  ByteOrder.little.bytes 8 (BitVec.ofNat 64 value.length).toNat ++ value

theorem writes_writeStringF64 (value : List UInt8) :
    Writes (ByteArray.writeStringF64 .little heap value) (stringF64Bytes value) := by
  have hlength : Writes (ByteArray.writeFuint64 .little heap (BitVec.ofNat 64 value.length)) _ :=
    ByteArray.writes_writeFixed 8 (BitVec.ofNat 64 value.length)
  exact hlength.bind (ByteArray.writes_write heap value)

theorem reads_readStringF64 {value : List UInt8} (h : value.length < 2 ^ 63) :
    Reads (ByteArray.readStringF64 .little) (stringF64Bytes value) (· = value) := by
  have hlength : Reads (ByteArray.readFuint64 .little) _ (· = BitVec.ofNat 64 value.length) :=
    ByteArray.reads_fixed 8 (BitVec.ofNat 64 value.length) (by decide)
  have hbody : ∀ len : BitVec 64, len = BitVec.ofNat 64 value.length →
      Reads (fun ba => do
        let str ← ByteArray.resize len.toNat
        ba.read str.length) value (· = value) := by
    rintro _ rfl
    exact ByteArray.reads_resized h (Nat.mod_eq_of_lt (Nat.lt_trans h (by decide)))
  exact hlength.bind hbody

/-- The bytes of a value. -/
def Codec.bytes : (c : Codec) → c.Val → List UInt8
  | .fint8, value | .fuint8, value => ByteOrder.little.bytes 1 value.toNat
  | .fint16, value | .fuint16, value => ByteOrder.little.bytes 2 value.toNat
  | .fint32, value | .fuint32, value | .float, value => ByteOrder.little.bytes 4 value.toNat
  | .fint64, value | .fuint64, value | .double, value => ByteOrder.little.bytes 8 value.toNat
  | .int32, value => ByteArray.varint (ByteArray.encodeZigzag32 value).toNat
  | .uint32, value | .uint64, value => ByteArray.varint value.toNat
  | .int64, value => ByteArray.varint (ByteArray.encodeZigzag64 value).toNat
  | .stringF64, value => stringF64Bytes value
  | .stringVint, value => ByteArray.stringBytes value

theorem Codec.writes (c : Codec) {value : c.Val} (h : c.Valid value) :
    Writes (c.write .little heap value) (c.bytes value) := by
  have hfixed : ∀ {w : Nat} (n : Nat) (x : BitVec w),
      Writes (ByteArray.writeFixed .little heap n x) (ByteOrder.little.bytes n x.toNat) :=
    fun n x => ByteArray.writes_writeFixed n x
  cases c with
  | fint8 | fuint8 => exact hfixed 1 value
  | fint16 | fuint16 => exact hfixed 2 value
  | fint32 | fuint32 | float => exact hfixed 4 value
  | fint64 | fuint64 | double => exact hfixed 8 value
  | int32 => exact ByteArray.writes_writeUint32 _
  | uint32 => exact ByteArray.writes_writeUint32 _
  | int64 => exact ByteArray.writes_writeUint64 _
  | uint64 => exact ByteArray.writes_writeUint64 _
  | stringF64 => exact writes_writeStringF64 value
  | stringVint => exact ByteArray.writes_writeStringVint h

theorem Codec.reads (c : Codec) {value : c.Val} (h : c.Valid value) :
    Reads (c.read .little) (c.bytes value) (· = value) := by
  cases c with
  | fint8 | fuint8 => exact ByteArray.reads_byte value
  | fint16 | fuint16 => exact ByteArray.reads_fixed 2 _ (by decide)
  | fint32 | fuint32 | float => exact ByteArray.reads_fixed 4 _ (by decide)
  | fint64 | fuint64 | double => exact ByteArray.reads_fixed 8 _ (by decide)
  | int32 => exact ByteArray.reads_readInt32 value
  | uint32 => exact ByteArray.reads_readUint32 value
  | int64 => exact ByteArray.reads_readInt64 value
  | uint64 => exact ByteArray.reads_readUint64 value
  | stringF64 => exact reads_readStringF64 h
  | stringVint => exact ByteArray.reads_readStringVint h

end Codecs

namespace TypedValue

def bytes (x : TypedValue) : List UInt8 := x.codec.bytes x.val

theorem writes_writeAll (heap : Heap) (xs : List TypedValue) :
    Writes (writeAll .little heap xs) (xs.flatMap bytes) := by
  induction xs with
  | nil =>
      intro ba before h
      exact ⟨ba, rfl, by simpa using h⟩
  | cons x xs ih => exact (x.codec.writes x.valid).bind ih

theorem reads_readAll (xs : List TypedValue) :
    Reads (readAll .little (xs.map codec)) (xs.flatMap bytes) (· = xs.map typed) := by
  induction xs with
  | nil =>
      intro ba before after h
      exact ⟨[], ba, rfl, rfl, by simpa using h⟩
  | cons x xs ih =>
      refine (x.codec.reads x.valid).map₂ ih (fun value values _ => ⟨x.codec, value⟩ :: values) ?_
      rintro _ _ - rfl rfl
      rfl

/-- **Typed values come back.** What a sequence of typed writes puts into a new array, the same
sequence of typed reads takes out again from the start of the data, to its very end. -/
theorem readAll_writeAll (heap : Heap) (base : Nat) (hbase : 0 < base) (xs : List TypedValue) :
    ∃ written reset last,
      writeAll .little heap xs (ByteArray.create heap base) = .ok written ∧
      written.setPosition 0 = .ok reset ∧
      readAll .little (xs.map codec) reset = .ok (xs.map typed, last) ∧
      last.position = last.size := by
  obtain ⟨written, hwrite, hwritten⟩ := writes_writeAll heap xs (ByteArray.holds_create heap hbase)
  obtain ⟨reset, hreset, hholds⟩ := hwritten.setPosition_zero
  obtain ⟨_, last, hread, rfl, hlast⟩ := reads_readAll xs hholds
  refine ⟨written, reset, last, hwrite, hreset, hread, ?_⟩
  rw [hlast.position_eq, hlast.size_eq]
  rfl

/-- Values of every length that straddle nodes of three bytes. -/
theorem readAll_writeAll_threes :
    ∃ written reset last,
      writeAll .little (fun _ _ => 0) [⟨.fuint8, 7, trivial⟩, ⟨.int64, BitVec.intMin 64, trivial⟩,
        ⟨.double, 1, trivial⟩, ⟨.stringF64, [1, 2, 3, 4], Nat.lt_two_pow_self.trans (by decide)⟩,
        ⟨.stringVint, [5], Nat.lt_two_pow_self.trans (by decide)⟩]
        (ByteArray.create (fun _ _ => 0) 3) = .ok written ∧
      written.setPosition 0 = .ok reset ∧
      readAll .little [.fuint8, .int64, .double, .stringF64, .stringVint] reset =
        .ok ([⟨.fuint8, 7⟩, ⟨.int64, BitVec.intMin 64⟩, ⟨.double, 1⟩, ⟨.stringF64, [1, 2, 3, 4]⟩,
          ⟨.stringVint, [5]⟩], last) ∧
      last.position = last.size :=
  readAll_writeAll (fun _ _ => 0) 3 (by decide) _

end TypedValue

end AsyncRPC
