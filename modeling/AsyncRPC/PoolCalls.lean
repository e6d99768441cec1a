import AsyncRPC.Lib.Run
import AsyncRPC.Rpc
import Mathlib.Data.Fintype.Basic
import Mathlib.Logic.Function.Basic

/-!
# RPCConnectionPool::call

Any number of calls of one service. A call that has found a client keeps the iterator to its entry of
`service_map_`, gives `connect_mutex_` back and takes it again if the client turns out to be closed.
`~ScopedLock` unlocks once more after `lock.unlock()`, so a call that returns can release the mutex of
another. Each use of `service_map_` and of `address_map_` is one step, also where two calls have come to
use them at once. What `RPCClient::call`, `discover` and `connect` come to is left to the outside.
-/

namespace AsyncRPC.PoolCalls

/-- An entry of `service_map_`; `iter` stands for the iterators to it and tells its client. -/
structure Entry (Addr : Type) where
  iter : Nat
  /-- `getSocket()->getRemoteAddress()->toString()` -/
  remoteAddress : Addr
  deriving Repr, DecidableEq

inductive Pc (Addr : Type)
  | idle
  | locking
  | entered
  | found (service : Entry Addr)
  | calling (service : Entry Addr)
  /-- That call has returned `RPC_CLOSED`. -/
  | relocking (service : Entry Addr)
  | removing (service : Entry Addr)
  | erasing (service : Entry Addr)
  | looking
  | discovering
  | connecting
  | callingNew
  | leaving (code : RPCState)
  deriving Repr, DecidableEq

/-- The entry whose client was closed, until the call has removed it. -/
def Pc.closed {Addr : Type} : Pc Addr → Option (Entry Addr)
  | .relocking service | .removing service | .erasing service => some service
  | _ => none

structure State (C Addr : Type) where
  connectMutex : Bool
  serviceMap : Option (Entry Addr)
  addressMap : List Addr
  /-- `registry_` is there and connected. -/
  registered : Bool
  /-- How many clients ever connected, which names the next one. -/
  clients : Nat
  pc : C → Pc Addr
  result : C → Option RPCState

structure New {C Addr : Type} (s : State C Addr) : Prop where
  connectMutex : s.connectMutex = false
  serviceMap : s.serviceMap = none
  clients : s.clients = 0
  pc : ∀ c, s.pc c = .idle

inductive Label (C Addr : Type)
  | call (c : C)
  | next (c : C)
  | answered (c : C) (code : RPCState)
  | discovered (c : C) (addrs : List Addr)
  /-- `select`, `LookupAny` and `connect` give a client of the address, or fail. -/
  | connect (c : C) (addr : Option Addr)
  | disconnect
  deriving Repr, DecidableEq

namespace State

variable {C Addr : Type} [DecidableEq C] [DecidableEq Addr]

def goto (s : State C Addr) (c : C) (pc : Pc Addr) : State C Addr :=
  { s with pc := Function.update s.pc c pc }

def lock (s : State C Addr) (c : C) (pc : Pc Addr) : Option (State C Addr) :=
  if s.connectMutex then none else some { s.goto c pc with connectMutex := true }

def advance (s : State C Addr) (c : C) : Option (State C Addr) :=
  match s.pc c with
  | .idle | .calling _ | .discovering | .connecting | .callingNew => none
  | .locking => s.lock c .entered
  | .entered =>
      match s.serviceMap with
      | some service => some { s.goto c (.found service) with connectMutex := false }
      | none => some (s.goto c .looking)
  | .found service => some (s.goto c (.calling service))
  | .relocking service => s.lock c (.removing service)
  | .removing service =>
      some { s.goto c (.erasing service) with
        addressMap := s.addressMap.erase service.remoteAddress }
  | .erasing _ => some { s.goto c .looking with serviceMap := none }
  | .looking =>
      if s.addressMap ≠ [] then some (s.goto c .connecting)
      else if s.registered then some (s.goto c .discovering)
      else some (s.goto c (.leaving .closed))
  -- `~ScopedLock`
  | .leaving code =>
      some { s.goto c .idle with
        connectMutex := false, result := Function.update s.result c (some code) }

def step (s : State C Addr) : Label C Addr → Option (State C Addr)
  | .call c =>
      match s.pc c with
      | .idle => some (s.goto c .locking)
      | _ => none
  | .next c => s.advance c
  | .answered c code =>
      match s.pc c with
      | .calling service =>
          some (s.goto c (if code = .closed then .relocking service else .leaving code))
      | .callingNew => some (s.goto c (.leaving code))
      | _ => none
  | .discovered c addrs =>
      match s.pc c with
      | .discovering =>
          some { s.goto c (if addrs = [] then .leaving .noMethod else .connecting) with
            addressMap := addrs }
      | _ => none
  | .connect c addr =>
      match s.pc c, addr with
      | .connecting, none => some (s.goto c (.leaving .fail))
      | .connecting, some addr =>
          if addr ∈ s.addressMap then
            -- `emplace` leaves an entry that is there
            some { s.goto c .callingNew with
              serviceMap := s.serviceMap.or (some ⟨s.clients, addr⟩)
              clients := s.clients + 1
              connectMutex := false }
          else none
      | _, _ => none
  | .disconnect => some { s with registered := false }

def Step (s : State C Addr) (l : Label C Addr) (t : State C Addr) : Prop := s.step l = some t

/-- A call that has found its client closed looks at an entry that is there, and erases that one. -/
structure Sound (s : State C Addr) : Prop where
  dereferences : ∀ c service, s.pc c = .removing service → s.serviceMap = some service
  erases : ∀ c service, s.pc c = .erasing service → s.serviceMap = some service

/-- When the client of an entry turns out to be closed, the entry is still in `service_map_`, and no
other call is on its way to remove it. -/
def Alone (s : State C Addr) : Label C Addr → Prop
  | .answered c code => ∀ service, s.pc c = .calling service → code = .closed →
      s.serviceMap = some service ∧ ∀ g, (s.pc g).closed ≠ some service
  | _ => True

instance [Fintype C] (s : State C Addr) : (l : Label C Addr) → Decidable (s.Alone l)
  | .answered c code =>
      match h : s.pc c with
      | .calling service =>
          decidable_of_iff
            (code = .closed → s.serviceMap = some service ∧ ∀ g, (s.pc g).closed ≠ some service)
            (by simp [Alone, h])
      | .idle | .locking | .entered | .found _ | .relocking _ | .removing _ | .erasing _ | .looking
      | .discovering | .connecting | .callingNew | .leaving _ => isTrue (by simp [Alone, h])
  | .call _ | .next _ | .discovered _ _ | .connect _ _ | .disconnect =>
      inferInstanceAs (Decidable True)

end State

end AsyncRPC.PoolCalls
