import AsyncRPC.ServiceRegistry

/-!
# How a provider leaves the registry

`handleUnregisterService` once more, with a record of what its loop does to the entries of `service_`
through their iterators, and of what it publishes.
-/

namespace AsyncRPC.ServiceRegistry

inductive Access
  | erase (i : Nat)
  /-- `i->first` is read; the entries are those of `service_` at that time. -/
  | first (i : Nat) (service : List Entry)
  | publish (key : Bytes) (data : Bool × Bytes)
  deriving Repr, DecidableEq

def Access.notice? : Access → Option (Bytes × Bool × Bytes)
  | .publish key data => some (key, data)
  | _ => none

namespace Registry

variable {Conn : Type} [DecidableEq Conn] (env : Env)

/-- `unregister`, with the record. -/
def withdraw (address : Bytes) (s : Registry Conn × List Access) (i : Nat) :
    Except Crash (Registry Conn × List Access) := do
  let r := { s.1 with service := s.1.service.eraseP fun e => e.iter = i }
  let key := rpcServiceSubscribe ++ env.freed i
  let data := (false, address)
  let r' ← r.publish env key data
  .ok (r', s.2 ++ [.erase i, .first i r.service, .publish key data])

/-- `handleUnregisterService`, with the record. -/
def withdrawService (r : Registry Conn) (providerAddr : IPv4Address) :
    Except Crash (Registry Conn × List Access) :=
  let address := providerAddr.toString
  match r.iters address with
  | none => .ok (r, [])
  | some its => do
      let s ← its.foldlM (withdraw env address) (r, [])
      .ok ({ s.1 with iters := Function.update s.1.iters address none }, s.2)

/-- The iterators that `iters_` has under an address. -/
def recorded (r : Registry Conn) (address : Bytes) : List Nat := (r.iters address).getD []

/-- The recorded entries are gone and the others are as they were; every entry that is gone has been
announced once, under its own name, and the names were read from entries of `service_`. -/
structure Withdraws (r : Registry Conn) (address : Bytes) (r' : Registry Conn) (log : List Access) :
    Prop where
  service : r'.service = r.service.filter fun e => !decide (e.iter ∈ r.recorded address)
  notices : (log.filterMap Access.notice?).Perm
    ((r.service.filter fun e => decide (e.iter ∈ r.recorded address)).map fun e =>
      (rpcServiceSubscribe ++ e.name, false, address))
  first : ∀ i service, .first i service ∈ log → ∃ e ∈ service, e.iter = i

end Registry

end AsyncRPC.ServiceRegistry
