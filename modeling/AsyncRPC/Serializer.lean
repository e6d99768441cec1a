import AsyncRPC.ByteArrayCodec
import AsyncRPC.FlatBuffer
import AsyncRPC.Lib.Emplace

/-!
# Serializer

The types `operator <<` and `operator >>` are defined for, their values, and the two operators. A
`Serializer` holds nothing but its `ByteArray`, which is passed along.

Strings are lists of bytes and containers are lists in iteration order. A tuple is built from the
right, as `tuple_serialize` takes it apart. `operator >>` reads into an object that has a value
already: it assigns scalars, but adds to containers.
-/

namespace AsyncRPC

open Emplace

/-- The types that `Serializer::read` and `Serializer::write` list. -/
inductive Scalar
  | bool
  | float
  | double
  | int8
  | uint8
  | int16
  | uint16
  | int32
  | uint32
  | int64
  | uint64
  | string
  deriving Repr, DecidableEq

namespace Scalar

def Val : Scalar → Type
  | .bool => Bool
  | .float => BitVec 32
  | .double => BitVec 64
  | .int8 => BitVec 8
  | .uint8 => BitVec 8
  | .int16 => BitVec 16
  | .uint16 => BitVec 16
  | .int32 => BitVec 32
  | .uint32 => BitVec 32
  | .int64 => BitVec 64
  | .uint64 => BitVec 64
  | .string => List UInt8

instance : (s : Scalar) → DecidableEq s.Val
  | .bool => inferInstanceAs (DecidableEq Bool)
  | .float | .int32 | .uint32 => inferInstanceAs (DecidableEq (BitVec 32))
  | .double | .int64 | .uint64 => inferInstanceAs (DecidableEq (BitVec 64))
  | .int8 | .uint8 => inferInstanceAs (DecidableEq (BitVec 8))
  | .int16 | .uint16 => inferInstanceAs (DecidableEq (BitVec 16))
  | .string => inferInstanceAs (DecidableEq (List UInt8))

/-- Reads of more than one byte that go through the macro `XX`. -/
def fixed : Scalar → Bool
  | .float | .double | .int16 | .uint16 => true
  | _ => false

def defaultVal : (s : Scalar) → s.Val
  | .bool => false
  | .float => 0#32
  | .double => 0#64
  | .int8 => 0#8
  | .uint8 => 0#8
  | .int16 => 0#16
  | .uint16 => 0#16
  | .int32 => 0#32
  | .uint32 => 0#32
  | .int64 => 0#64
  | .uint64 => 0#64
  | .string => []

section Compare

/-- An IEEE 754 number of width `w` by its bit pattern; the patterns above `inf` are not numbers. -/
def isNaN {w : Nat} (inf : Nat) (x : BitVec w) : Bool := inf < x.toNat % 2 ^ (w - 1)

/-- The magnitude with its sign; both zeros are zero. -/
def signedMagnitude {w : Nat} (x : BitVec w) : Int :=
  if x.msb then -((x.toNat % 2 ^ (w - 1) : Nat) : Int) else (x.toNat % 2 ^ (w - 1) : Nat)

def floatLt {w : Nat} (inf : Nat) (x y : BitVec w) : Bool :=
  !isNaN inf x && !isNaN inf y && decide (signedMagnitude x < signedMagnitude y)

def floatEq {w : Nat} (inf : Nat) (x y : BitVec w) : Bool :=
  !isNaN inf x && !isNaN inf y && decide (signedMagnitude x = signedMagnitude y)

/-- `std::lexicographical_compare` -/
def lexLt {α : Type} (lt : α → α → Bool) : List α → List α → Bool
  | _, [] => false
  | [], _ :: _ => true
  | x :: xs, y :: ys => if lt x y then true else if lt y x then false else lexLt lt xs ys

/-- `operator <`; characters compare as unsigned. -/
def lt : (s : Scalar) → s.Val → s.Val → Bool
  | .bool, x, y => !x && y
  | .float, x, y => floatLt 0x7f800000 x y
  | .double, x, y => floatLt 0x7ff0000000000000 x y
  | .int8, x, y => BitVec.slt x y
  | .uint8, x, y => BitVec.ult x y
  | .int16, x, y => BitVec.slt x y
  | .uint16, x, y => BitVec.ult x y
  | .int32, x, y => BitVec.slt x y
  | .uint32, x, y => BitVec.ult x y
  | .int64, x, y => BitVec.slt x y
  | .uint64, x, y => BitVec.ult x y
  | .string, x, y => lexLt (fun a b : UInt8 => decide (a < b)) x y

/-- `std::equal_to` -/
def eq : (s : Scalar) → s.Val → s.Val → Bool
  | .float, x, y => floatEq 0x7f800000 x y
  | .double, x, y => floatEq 0x7ff0000000000000 x y
  | _, x, y => decide (x = y)

end Compare

variable (host : ByteOrder) (heap : Heap)

def write : (s : Scalar) → s.Val → ByteArray → Except Fault ByteArray
  | .bool, t, ba => ba.writeFint8 host heap (BitVec.setWidth 8 (BitVec.ofBool t))
  | .float, t, ba => ba.writeFloat host heap t
  | .double, t, ba => ba.writeDouble host heap t
  | .int8, t, ba => ba.writeFint8 host heap t
  | .uint8, t, ba => ba.writeFuint8 host heap t
  | .int16, t, ba => ba.writeFint16 host heap t
  | .uint16, t, ba => ba.writeFuint16 host heap t
  | .int32, t, ba => ba.writeInt32 heap t
  | .uint32, t, ba => ba.writeUint32 heap t
  | .int64, t, ba => ba.writeInt64 heap t
  | .uint64, t, ba => ba.writeUint64 heap t
  | .string, t, ba => ba.writeStringVint heap t

def read : (s : Scalar) → ByteArray → Except Fault (s.Val × ByteArray)
  | .bool, ba => do
      let (t, ba) ← ba.readFint8 host
      .ok (t != 0#8, ba)
  | .float, ba => ba.readFloat host
  | .double, ba => ba.readDouble host
  | .int8, ba => ba.readFint8 host
  | .uint8, ba => ba.readFuint8 host
  | .int16, ba => ba.readFint16 host
  | .uint16, ba => ba.readFuint16 host
  | .int32, ba => ba.readInt32 host
  | .uint32, ba => ba.readUint32 host
  | .int64, ba => ba.readInt64 host
  | .uint64, ba => ba.readUint64 host
  | .string, ba => ba.readStringVint host

end Scalar

inductive CollKind
  | list
  | vector
  | set
  | multiset
  | unorderedSet
  | unorderedMultiset
  deriving Repr, DecidableEq

def CollKind.discipline : CollKind → Discipline
  | .list => .append
  | .vector => .append
  | .set => .unique
  | .multiset => .multi
  | .unorderedSet => .hashedUnique
  | .unorderedMultiset => .hashedMulti

inductive AssocKind
  | map
  | multimap
  | unorderedMap
  | unorderedMultimap
  deriving Repr, DecidableEq

def AssocKind.discipline : AssocKind → Discipline
  | .map => .unique
  | .multimap => .multi
  | .unorderedMap => .hashedUnique
  | .unorderedMultimap => .hashedMulti

inductive Ty
  | scalar (s : Scalar)
  | pair (first second : Ty)
  | tupleOne (t : Ty)
  | tupleSnoc (init last : Ty)
  | coll (kind : CollKind) (t : Ty)
  | assoc (kind : AssocKind) (key val : Ty)
  deriving Repr, DecidableEq

namespace Ty

def Val : Ty → Type
  | .scalar s => s.Val
  | .pair first second => first.Val × second.Val
  | .tupleOne t => t.Val
  | .tupleSnoc init last => init.Val × last.Val
  | .coll _ t => List t.Val
  | .assoc _ key val => List (key.Val × val.Val)

/-- A default-constructed object. Scalars are assigned before they are used. -/
def defaultVal : (t : Ty) → t.Val
  | .scalar s => s.defaultVal
  | .pair first second => (first.defaultVal, second.defaultVal)
  | .tupleOne t => t.defaultVal
  | .tupleSnoc init last => (init.defaultVal, last.defaultVal)
  | .coll _ _ => []
  | .assoc _ _ _ => []

section Compare

def ordered : Ty → Bool
  | .scalar _ => true
  | .pair first second => first.ordered && second.ordered
  | .tupleOne t => t.ordered
  | .tupleSnoc init last => init.ordered && last.ordered
  | .coll kind t => !kind.discipline.hashed && t.ordered
  | .assoc kind key val => !kind.discipline.hashed && key.ordered && val.ordered

def hashable : Ty → Bool
  | .scalar _ => true
  | _ => false

def pairLt {α β : Type} (ltA : α → α → Bool) (ltB : β → β → Bool) (x y : α × β) : Bool :=
  ltA x.1 y.1 || (!ltA y.1 x.1 && ltB x.2 y.2)

/-- `operator <` of the ordered types. -/
def lt : (t : Ty) → t.Val → t.Val → Bool
  | .scalar s => s.lt
  | .pair first second => pairLt first.lt second.lt
  | .tupleOne t => t.lt
  | .tupleSnoc init last => pairLt init.lt last.lt
  | .coll _ t => Scalar.lexLt t.lt
  | .assoc _ key val => Scalar.lexLt (pairLt key.lt val.lt)

/-- `operator ==` of the hashable types. -/
def keyEq : (t : Ty) → t.Val → t.Val → Bool
  | .scalar s => s.eq
  | _ => fun _ _ => false

def isTuple : Ty → Bool
  | .tupleOne _ => true
  | .tupleSnoc _ _ => true
  | _ => false

def canKey (d : Discipline) (t : Ty) : Bool :=
  (!d.ordered || t.ordered) && (!d.hashed || t.hashable)

/-- The types of the universe: keys that can be compared or hashed, and no `vector<bool>`, whose
elements are not `bool` objects. -/
def supported : Ty → Bool
  | .scalar _ => true
  | .pair first second => first.supported && second.supported
  | .tupleOne t => t.supported
  | .tupleSnoc init last => init.isTuple && init.supported && last.supported
  | .coll kind t =>
      t.supported && canKey kind.discipline t && !(kind = .vector && t = .scalar .bool)
  | .assoc kind key val => key.supported && val.supported && canKey kind.discipline key

end Compare

variable (host : ByteOrder) (heap : Heap) (order : HashOrder)

/-- `operator <<` -/
def write : (t : Ty) → t.Val → ByteArray → Except Fault ByteArray
  | .scalar s, x, ba => s.write host heap x ba
  | .pair first second, x, ba => do
      let ba ← first.write x.1 ba
      second.write x.2 ba
  | .tupleOne t, x, ba => t.write x ba
  | .tupleSnoc init last, x, ba => do
      let ba ← init.write x.1 ba
      last.write x.2 ba
  | .coll _ t, v, ba => do
      let ba ← ba.writeUint64 heap (BitVec.ofNat 64 (List.length v))
      List.foldlM (fun ba x => t.write x ba) ba v
  | .assoc _ key val, v, ba => do
      let ba ← ba.writeUint64 heap (BitVec.ofNat 64 (List.length v))
      List.foldlM (fun ba (x : key.Val × val.Val) => do
        let ba ← key.write x.1 ba
        val.write x.2 ba) ba v

/-- `for (size_t i = 0; i < size; ++i)` -/
def repeatRead {α : Type} (body : α → ByteArray → Except Fault (α × ByteArray)) :
    Nat → α → ByteArray → Except Fault (α × ByteArray)
  | 0, v, ba => .ok (v, ba)
  | size + 1, v, ba => do
      let (v, ba) ← body v ba
      repeatRead body size v ba

/-- `operator >>` into an object that holds a value. -/
def read : (t : Ty) → t.Val → ByteArray → Except Fault (t.Val × ByteArray)
  | .scalar s, _, ba => s.read host ba
  | .pair first second, x, ba => do
      let (a, ba) ← first.read x.1 ba
      let (b, ba) ← second.read x.2 ba
      .ok ((a, b), ba)
  | .tupleOne t, x, ba => t.read x ba
  | .tupleSnoc init last, x, ba => do
      let (a, ba) ← init.read x.1 ba
      let (b, ba) ← last.read x.2 ba
      .ok ((a, b), ba)
  | .coll kind t, v, ba => do
      let (size, ba) ← ba.readUint64 host
      repeatRead (fun (v : List t.Val) ba => do
        let (x, ba) ← t.read t.defaultVal ba
        .ok (kind.discipline.emplace order t.lt t.keyEq ba.position x v, ba)) size.toNat v ba
  | .assoc kind key val, v, ba => do
      let (size, ba) ← ba.readUint64 host
      repeatRead (fun (v : List (key.Val × val.Val)) ba => do
        let (a, ba) ← key.read key.defaultVal ba
        let (b, ba) ← val.read val.defaultVal ba
        .ok (kind.discipline.emplace order (fun x y => key.lt x.1 y.1) (fun x y => key.keyEq x.1 y.1)
          ba.position (a, b) v, ba)) size.toNat v ba

/-! ### What has to come back -/

/-- What every C++ object of the type satisfies: sizes that the library can report, and the order of
the ordered containers. -/
def Valid : (t : Ty) → t.Val → Prop
  | .scalar .string => fun (x : List UInt8) => x.length < 2 ^ 63
  | .scalar _ => fun _ => True
  | .pair first second => fun x => first.Valid x.1 ∧ second.Valid x.2
  | .tupleOne t => t.Valid
  | .tupleSnoc init last => fun x => init.Valid x.1 ∧ last.Valid x.2
  | .coll kind t => fun (v : List t.Val) =>
      v.length < 2 ^ 64 ∧ (∀ x ∈ v, t.Valid x) ∧ kind.discipline.Kept t.lt t.keyEq v
  | .assoc kind key val => fun (v : List (key.Val × val.Val)) =>
      v.length < 2 ^ 64 ∧ (∀ x ∈ v, key.Valid x.1 ∧ val.Valid x.2) ∧
        kind.discipline.Kept (fun x y => key.lt x.1 y.1) (fun x y => key.keyEq x.1 y.1) v

/-- Equal values: unordered containers whatever their iteration order. -/
def Eqv : (t : Ty) → t.Val → t.Val → Prop
  | .scalar _ => fun x y => x = y
  | .pair first second => fun x y => first.Eqv x.1 y.1 ∧ second.Eqv x.2 y.2
  | .tupleOne t => t.Eqv
  | .tupleSnoc init last => fun x y => init.Eqv x.1 y.1 ∧ last.Eqv x.2 y.2
  | .coll kind t => fun v w => kind.discipline.Same t.Eqv v w
  | .assoc kind key val => fun v w =>
      kind.discipline.Same (fun x y => key.Eqv x.1 y.1 ∧ val.Eqv x.2 y.2) v w

/-- A scalar of more than one byte with a fixed width occurs in the type. -/
def fixed : Ty → Bool
  | .scalar s => s.fixed
  | .pair first second => first.fixed || second.fixed
  | .tupleOne t => t.fixed
  | .tupleSnoc init last => init.fixed || last.fixed
  | .coll _ t => t.fixed
  | .assoc _ key val => key.fixed || val.fixed

/-- No container that reading would add to has anything in it. -/
def Fresh : (t : Ty) → t.Val → Prop
  | .scalar _ => fun _ => True
  | .pair first second => fun x => first.Fresh x.1 ∧ second.Fresh x.2
  | .tupleOne t => t.Fresh
  | .tupleSnoc init last => fun x => init.Fresh x.1 ∧ last.Fresh x.2
  | .coll _ t => fun (v : List t.Val) => v = []
  | .assoc _ key val => fun (v : List (key.Val × val.Val)) => v = []

/-- A fresh array of nodes of `base` bytes with the value and the bytes `rest`, back at the start. -/
def stored (t : Ty) (base : Nat) (x : t.Val) (rest : List UInt8) : Except Fault ByteArray := do
  let ba ← t.write host heap x (ByteArray.create heap base)
  let ba ← ba.write heap rest
  ba.setPosition 0

/-- Read back into a default-constructed object, the value is equal and `rest` is left unread. -/
def RoundTrips (t : Ty) (base : Nat) (x : t.Val) (rest : List UInt8) : Prop :=
  ∃ ba y ba', t.stored host heap base x rest = .ok ba ∧
    t.read host order t.defaultVal ba = .ok (y, ba') ∧ t.Eqv x y ∧ ba'.unread = rest

end Ty

namespace Serializer

variable (heap : Heap)

/-- A new serializer, on a `ByteArray` of the default node size. -/
def create : ByteArray := ByteArray.create heap 4096

/-- `Serializer(const std::string &content)` -/
def ofContent (content : List UInt8) : Except Fault ByteArray := do
  let ba ← (create heap).write heap content
  ba.setPosition 0

/-- `s.reset(); s.toString()` on a new serializer after `put` has written to it. -/
def contentOf (put : ByteArray → Except Fault ByteArray) : Except Fault (List UInt8) := do
  let ba ← put (create heap)
  let ba ← ba.setPosition 0
  ba.toString

end Serializer

end AsyncRPC
