import AsyncRPC.IPv6Address

/-!
# The host of a lookup

How `Address::Lookup` takes a host string apart for `getaddrinfo`. `service` is a pointer into the
string, so what it stands for is the string from there on, also where another part of the function has
left it.
-/

namespace AsyncRPC.Lookup

open IPv6Address

/-- `memchr(host.c_str() + start, c, host.size() - start)`, as a place in the string. -/
def memchr (host : List UInt8) (start : Nat) (c : UInt8) : Option Nat :=
  ((host.drop start).idxOf? c).map (start + ·)

/-- `host.c_str()[i]`, a zero behind the string. -/
def charAt (host : List UInt8) (i : Nat) : UInt8 := host.getD i 0

/-- What a `const char *` to these bytes says. -/
def cString (bytes : List UInt8) : List UInt8 := bytes.takeWhile (· ≠ 0)

structure Split where
  node : List UInt8
  service : Option Nat
  deriving Repr, DecidableEq

/-- `[h]` and `[h]:p` -/
def bracketed (host : List UInt8) (s : Split) : Split :=
  if ¬ host.isEmpty ∧ charAt host 0 = openBracket then
    match memchr host 1 closeBracket with
    | none => s
    | some endipv6 =>
        { node := (host.drop 1).take (endipv6 - 1)
          service := if charAt host (endipv6 + 1) = colon then some (endipv6 + 2) else s.service }
  else s

/-- `h:p` -/
def unbracketed (host : List UInt8) (s : Split) : Split :=
  if s.node.isEmpty then
    match memchr host 0 colon with
    | none => { s with service := none }
    | some service =>
        match memchr host (service + 1) colon with
        | none =>
            { node := host.take service
              service := some (service + 1) }
        | some _ => { s with service := some service }
  else s

def whole (host : List UInt8) (s : Split) : Split :=
  if s.node.isEmpty then { s with node := host } else s

/-- The first two arguments of `getaddrinfo`. -/
structure Query where
  node : List UInt8
  service : Option (List UInt8)
  deriving Repr, DecidableEq

def query (host : List UInt8) : Query :=
  let s := whole host (unbracketed host (bracketed host { node := [], service := none }))
  { node := cString s.node
    service := s.service.map fun place => cString (host.drop place) }

/-- The host is taken apart as it is written. -/
structure Splits (host : List UInt8) : Prop where
  bracketedWithService : ∀ h p, host = openBracket :: h ++ closeBracket :: colon :: p → h ≠ [] →
    closeBracket ∉ h → query host = { node := h, service := some p }
  bracketed : ∀ h, host = openBracket :: h ++ [closeBracket] → h ≠ [] → closeBracket ∉ h →
    query host = { node := h, service := none }
  withService : ∀ h p, host = h ++ colon :: p → h ≠ [] → h.head? ≠ some openBracket → colon ∉ h →
    colon ∉ p → query host = { node := h, service := some p }
  whole : host.head? ≠ some openBracket → host.head? ≠ some colon →
    (host.count colon = 0 ∨ 2 ≤ host.count colon) → query host = { node := host, service := none }

/-- More than one colon and none of them, nor a bracket, at the beginning: as of an IPv6 address. -/
def ManyColons (host : List UInt8) : Prop :=
  host.head? ≠ some openBracket ∧ host.head? ≠ some colon ∧ 2 ≤ host.count colon

end AsyncRPC.Lookup

namespace AsyncRPC.IPv4Address

/-- What `insert` writes in front of the port. -/
def addrText (address : IPv4Address) : List UInt8 :=
  [IPv6Address.dot].intercalate
    ([24, 16, 8, 0].map fun shift => decimal ((address.addr >>> shift) &&& 0xff#32).toNat)

end AsyncRPC.IPv4Address
