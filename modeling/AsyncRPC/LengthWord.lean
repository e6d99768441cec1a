import AsyncRPC.FlatBuffer
import AsyncRPC.Frame

/-!
# Strings behind a short length

`writeStringF16` and `writeStringF32` put the size of the string into a word of two or four bytes and
then write all of the string, however long it is.
-/

namespace AsyncRPC

inductive LengthWord
  | f16
  | f32
  deriving Repr, DecidableEq

namespace LengthWord

def bytes : LengthWord → Nat
  | .f16 => 2
  | .f32 => 4

def bits (word : LengthWord) : Nat := 8 * word.bytes

variable (host : ByteOrder) (heap : Heap)

def writeString : LengthWord → List UInt8 → ByteArray → Except Fault ByteArray
  | .f16 => ByteArray.writeStringF16 host heap
  | .f32 => ByteArray.writeStringF32 host heap

def readString : LengthWord → ByteArray → Except Fault (List UInt8 × ByteArray)
  | .f16 => ByteArray.readStringF16 host
  | .f32 => ByteArray.readStringF32 host

/-- The integer that the host finds in the word at a position. -/
def stored (word : LengthWord) (position : Nat) (ba : ByteArray) : Nat :=
  host.value (Blocks.slice position word.bytes ba.flat.data)

section Property

variable (word : LengthWord) (ba : ByteArray) (s data : List UInt8)

/-- Written with `data` behind it and read from where it begins, `s` comes back with the cursor at
`data`. -/
def Returns : Prop :=
  ∃ written followed back rest,
    word.writeString host heap s ba = .ok written ∧ written.write heap data = .ok followed ∧
    followed.setPosition ba.position = .ok back ∧ word.readString host back = .ok (s, rest) ∧
    rest.position = written.position ∧ data <+: rest.unread

/-- The write fails, or leaves the array as it is. -/
def Refuses : Prop := ∀ written, word.writeString host heap s ba = .ok written → written = ba

/-- The word counts the bytes that were written behind it. -/
def Counts : Prop :=
  ∀ written, word.writeString host heap s ba = .ok written →
    written.position = ba.position + word.bytes + word.stored host ba.position written

def Faithful : Prop :=
  (word.Returns host heap ba s data ∨ word.Refuses host heap ba s) ∧ word.Counts host heap ba s

/-- The length fits into the word, and the host is little-endian or the bytes of the length read the
same from both ends. -/
def Fits : Prop :=
  s.length < 2 ^ word.bits ∧
    (host = .little ∨ Radix.byteSwap word.bytes s.length = s.length)

end Property

end LengthWord

end AsyncRPC
