import AsyncRPC.ByteArray

/-!
# Address

The addresses of peers. An IPv4 address and its port are kept as `NetworkToHost` reads them out of the
`sockaddr_in`, which is how they are printed; `HostToNetwork` is the same function, and its own inverse.
-/

namespace AsyncRPC

/-- `os << n` for an unsigned integer. -/
def decimal (n : Nat) : List UInt8 := (Nat.toDigits 10 n).map fun c => UInt8.ofNat c.toNat

structure IPv4Address where
  addr : BitVec 32
  port : BitVec 16
  deriving Repr, DecidableEq

namespace IPv4Address

def setPort (address : IPv4Address) (v : BitVec 16) : IPv4Address := { address with port := v }

def toString (address : IPv4Address) : List UInt8 :=
  let dot : UInt8 := 46
  let colon : UInt8 := 58
  let octet := fun (shift : Nat) => decimal ((address.addr >>> shift) &&& 0xff#32).toNat
  octet 24 ++ dot :: octet 16 ++ dot :: octet 8 ++ dot :: octet 0 ++
    colon :: decimal address.port.toNat

end IPv4Address

/-- What `getRemoteAddress` returns, as far as a cast to `IPv4Address` can tell. -/
inductive Address
  | ipv4 (address : IPv4Address)
  | other
  deriving Repr, DecidableEq

end AsyncRPC
