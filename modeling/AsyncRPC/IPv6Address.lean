import AsyncRPC.Address
import AsyncRPC.Subnet

/-!
# The text of an IPv6 address

`IPv6Address::insert` over a `sockaddr_in6` as it lies in memory, and the texts an IPv6 address may be
written as. `order` is `RPC_BYTE_ORDER` as address.cc sees it, which need not be the order of the memory.
-/

namespace AsyncRPC.IPv6Address

open Radix Subnet

def colon : UInt8 := 58

def dot : UInt8 := 46

def openBracket : UInt8 := 91

def closeBracket : UInt8 := 93

section Insert

/-- `os << std::hex << n` -/
def hexadecimal (n : Nat) : List UInt8 := (Nat.toDigits 16 n).map fun c => UInt8.ofNat c.toNat

variable (order host : ByteOrder) (addr : SockaddrIn6)

/-- `NetworkToHost` of a `uint16_t`. -/
def networkToHost (value : BitVec 16) : BitVec 16 :=
  match order with
  | .big => value
  | .little => BitVec.ofNat 16 (byteSwap 2 value.toNat)

/-- `((uint16_t *)addr_.sin6_addr.s6_addr)[i]` -/
def group (i : Nat) : BitVec 16 :=
  BitVec.ofNat 16 (host.value (((List.ofFn addr.s6Addr).drop (2 * i)).take 2))

/-- What the loop over the groups has written, and whether `::` is in it. -/
structure Printed where
  text : List UInt8
  usedZeros : Bool
  deriving Repr, DecidableEq

def insertGroup (i : Nat) (os : Printed) : Printed :=
  if group host addr i = 0 ∧ ¬ os.usedZeros then os
  else
    let os : Printed :=
      if i ≠ 0 ∧ group host addr (i - 1) = 0 ∧ ¬ os.usedZeros then
        { text := os.text ++ [colon]
          usedZeros := true }
      else os
    let os := if i ≠ 0 then { os with text := os.text ++ [colon] } else os
    { os with text := os.text ++ hexadecimal (networkToHost order (group host addr i)).toNat }

/-- The loop's first rounds. -/
def insertGroups : Nat → Printed
  | 0 => { text := [], usedZeros := false }
  | i + 1 => insertGroup order host addr i (insertGroups i)

/-- What stands between the brackets. -/
def insertAddr : List UInt8 :=
  let os := insertGroups order host addr 8
  if ¬ os.usedZeros ∧ group host addr 7 = 0 then os.text ++ [colon, colon] else os.text

def getPort : Nat := (networkToHost order addr.sin6Port).toNat

def insert : List UInt8 :=
  openBracket :: insertAddr order host addr ++
    closeBracket :: colon :: decimal (getPort order addr)

end Insert

section Text

def hexDigit (c : UInt8) : Option Nat :=
  if 48 ≤ c ∧ c ≤ 57 then some (c.toNat - 48)
  else if 97 ≤ c ∧ c ≤ 102 then some (c.toNat - 87)
  else if 65 ≤ c ∧ c ≤ 70 then some (c.toNat - 55)
  else none

/-- The number that begins with the digits of `n` and goes on with these. -/
def hexNumber : Nat → List UInt8 → Option Nat
  | n, [] => some n
  | n, c :: text => (hexDigit c).bind fun d => hexNumber (16 * n + d) text

def hexGroup (text : List UInt8) : Option Nat :=
  if text = [] ∨ 4 < text.length then none else hexNumber 0 text

/-- Pieces that are read as groups. An IPv4 address in dotted decimal may stand for the last two. -/
inductive Reads : List (List UInt8) → List Nat → Prop
  | nil : Reads [] []
  | group {piece : List UInt8} {n : Nat} {pieces : List (List UInt8)} {groups : List Nat} :
      hexGroup piece = some n → Reads pieces groups → Reads (piece :: pieces) (n :: groups)
  | dotted {a b c d : UInt8} :
      Reads [[dot].intercalate [decimal a.toNat, decimal b.toNat, decimal c.toNat, decimal d.toNat]]
        [256 * a.toNat + b.toNat, 256 * c.toNat + d.toNat]

/-- The text is one of the forms of these eight groups: with all of them, or with `::` once for one or
more groups of zeros. -/
inductive Denotes : List UInt8 → List Nat → Prop
  | full {pieces : List (List UInt8)} {groups : List Nat} :
      Reads pieces groups → groups.length = 8 → Denotes ([colon].intercalate pieces) groups
  | compressed {front back : List (List UInt8)} {before after : List Nat} {zeros : Nat} :
      front.map hexGroup = before.map some → Reads back after → 0 < zeros →
      before.length + zeros + after.length = 8 →
      Denotes ([colon].intercalate front ++ colon :: colon :: [colon].intercalate back)
        (before ++ List.replicate zeros 0 ++ after)

def AtMostOneDoubled (text : List UInt8) : Prop :=
  ∀ a b a' b' : List UInt8, text = a ++ colon :: colon :: b → text = a' ++ colon :: colon :: b' →
    a = a' ∧ b = b'

/-- The address as eight numbers, in network order. -/
def groupsOf (addr : SockaddrIn6) : List Nat :=
  (List.range 8).map fun i =>
    256 * ((List.ofFn addr.s6Addr).getD (2 * i) 0).toNat
      + ((List.ofFn addr.s6Addr).getD (2 * i + 1) 0).toNat

/-- The port as a number, in network order. -/
def portOf (host : ByteOrder) (addr : SockaddrIn6) : Nat :=
  ByteOrder.value .big (host.bytes 2 addr.sin6Port.toNat)

/-- The address with the two bytes of each group, and of the port, the other way round. -/
def swapped (addr : SockaddrIn6) : SockaddrIn6 :=
  { sin6Port := BitVec.ofNat 16 (byteSwap 2 addr.sin6Port.toNat)
    s6Addr := fun j => addr.s6Addr ⟨j + 1 - 2 * (j % 2), by omega⟩ }

/-- What a cast for this order makes of an address in memory of that one. -/
def seen (order host : ByteOrder) (addr : SockaddrIn6) : SockaddrIn6 :=
  if order = host then addr else swapped addr

/-- Between the brackets is a text of this address and of no other, and the port is behind them. -/
def Shown (order host : ByteOrder) (addr : SockaddrIn6) : Prop :=
  ∃ text, insert order host addr =
      openBracket :: (text ++ closeBracket :: colon :: decimal (portOf host addr)) ∧
    closeBracket ∉ text ∧ AtMostOneDoubled text ∧
    ∀ groups, Denotes text groups ↔ groups = groupsOf addr

end Text

end AsyncRPC.IPv6Address
