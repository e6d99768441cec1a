import AsyncRPC.ByteArrayCodec

/-!
# Subnets

`subnetMask`, `networkAddress` and `broadcastAddress` of IPv4Address and IPv6Address. The addresses are
the `sockaddr_in` and `sockaddr_in6` as they lie in memory, so that an IPv4 address is a number whose
bytes are in network order.

`order` is `RPC_BYTE_ORDER` in this translation unit, `host` the order of the bytes in memory. The macro
compares `BYTE_ORDER` and `BIG_ENDIAN`, which no header that address.cc includes has to define: where
neither is defined it says `RPC_BIG_ENDIAN` on every host.
-/

namespace AsyncRPC.Subnet

open Radix

/-- What the language does not define: a shift by the width of an `int`, an `int` that overflows, an
access behind the end of an array. -/
inductive Undefined
  | shiftWidth
  | overflow
  | outOfBounds
  deriving Repr, DecidableEq

/-- `(1 << (sizeof(T) * 8 - bit)) - 1` for a `T` of `w` bits, computed as an `int` of 32. -/
def createMask (w bit : Nat) : Except Undefined (BitVec w) :=
  if 32 ≤ w - bit then .error .shiftWidth
  else if w - bit = 31 then .error .overflow
  else .ok (BitVec.ofNat w (2 ^ (w - bit) - 1))

/-- `EndianCast` of a `uint32_t`. -/
def endianCast (order : ByteOrder) (value : BitVec 32) : BitVec 32 :=
  match order with
  | .big => value
  | .little => BitVec.ofNat 32 (byteSwap 4 value.toNat)

/-- Bit `i` of bytes in network order, from the first one of the first byte. -/
def bitAt (bytes : List UInt8) (i : Nat) : Bool := (bytes.getD (i / 8) 0).toBitVec.getMsbD (i % 8)

section IPv4

structure SockaddrIn where
  sinPort : BitVec 16
  sinAddr : BitVec 32
  deriving Repr, DecidableEq

namespace SockaddrIn

variable (order host : ByteOrder) (addr : SockaddrIn) (prefixLen : Nat)

def bit (i : Nat) : Bool := bitAt (host.bytes 4 addr.sinAddr.toNat) i

def broadcastAddress : Except Undefined (Option SockaddrIn) :=
  if prefixLen > 32 then .ok none
  else do
    let mask ← createMask 32 prefixLen
    .ok (some { addr with sinAddr := addr.sinAddr ||| endianCast order mask })

def networkAddress : Except Undefined (Option SockaddrIn) :=
  if prefixLen > 32 then .ok none
  else do
    let mask ← createMask 32 prefixLen
    .ok (some { addr with sinAddr := addr.sinAddr &&& endianCast order mask })

def subnetMask : Except Undefined (Option SockaddrIn) :=
  if prefixLen > 32 then .ok none
  else do
    let mask ← createMask 32 prefixLen
    .ok (some { sinPort := 0, sinAddr := 0#32 ||| ~~~ endianCast order mask })

/-- The function returns an address, and its bits are these. -/
def Gives (result : Except Undefined (Option SockaddrIn)) (bits : Nat → Bool) : Prop :=
  ∃ addr, result = .ok (some addr) ∧ ∀ i < 32, addr.bit host i = bits i

end SockaddrIn

end IPv4

section IPv6

structure SockaddrIn6 where
  sin6Port : BitVec 16
  s6Addr : Fin 16 → UInt8

namespace SockaddrIn6

def get (bytes : Fin 16 → UInt8) (i : Nat) : Except Undefined UInt8 :=
  if h : i < 16 then .ok (bytes ⟨i, h⟩) else .error .outOfBounds

def put (bytes : Fin 16 → UInt8) (i : Nat) (value : UInt8) : Except Undefined (Fin 16 → UInt8) :=
  if h : i < 16 then .ok (fun j => if j = ⟨i, h⟩ then value else bytes j) else .error .outOfBounds

/-- `for (i = first; i < first + rounds; ++i) s6_addr[i] = value;` -/
def fill (value : UInt8) : Nat → Nat → (Fin 16 → UInt8) → Except Undefined (Fin 16 → UInt8)
  | _, 0, bytes => .ok bytes
  | first, rounds + 1, bytes => do
      let bytes ← put bytes first value
      fill value (first + 1) rounds bytes

variable (addr : SockaddrIn6) (prefixLen : Nat)

def bit (i : Nat) : Bool := bitAt (List.ofFn addr.s6Addr) i

def broadcastAddress : Except Undefined SockaddrIn6 := do
  let mask ← createMask 8 (prefixLen % 8)
  let byte ← get addr.s6Addr (prefixLen / 8)
  let bytes ← put addr.s6Addr (prefixLen / 8) (byte ||| UInt8.ofBitVec mask)
  let bytes ← fill 0xff (prefixLen / 8 + 1) (16 - (prefixLen / 8 + 1)) bytes
  .ok { addr with s6Addr := bytes }

def networkAddress : Except Undefined SockaddrIn6 := do
  let mask ← createMask 8 (prefixLen % 8)
  let byte ← get addr.s6Addr (prefixLen / 8)
  let bytes ← put addr.s6Addr (prefixLen / 8) (byte &&& UInt8.ofBitVec mask)
  let bytes ← fill 0x00 (prefixLen / 8 + 1) (16 - (prefixLen / 8 + 1)) bytes
  .ok { addr with s6Addr := bytes }

def subnetMask : Except Undefined SockaddrIn6 := do
  let mask ← createMask 8 (prefixLen % 8)
  let bytes ← put (fun _ => 0) (prefixLen / 8) (UInt8.ofBitVec (~~~ mask))
  let bytes ← fill 0xff 0 (prefixLen / 8) bytes
  .ok { sin6Port := 0, s6Addr := bytes }

/-- The function returns, and the bits of its address are these. -/
def Gives (result : Except Undefined SockaddrIn6) (bits : Nat → Bool) : Prop :=
  ∃ addr, result = .ok addr ∧ ∀ i < 128, addr.bit i = bits i

end SockaddrIn6

end IPv6

/-- Which bit of a number, from the top, the cast brings to bit `i` of an address: a cast that does not fit
the memory reverses the bytes. -/
def castPlace (order host : ByteOrder) (i : Nat) : Nat :=
  if order = host then i else 8 * (3 - i / 8) + i % 8

def maskBits (p i : Nat) : Bool := decide (i < p)

/-- The address AND the mask. -/
def networkBits (bit : Nat → Bool) (p i : Nat) : Bool := bit i && maskBits p i

/-- The address OR the complement of the mask. -/
def broadcastBits (bit : Nat → Bool) (p i : Nat) : Bool := bit i || !maskBits p i

end AsyncRPC.Subnet
