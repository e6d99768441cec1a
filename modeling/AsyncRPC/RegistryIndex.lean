import AsyncRPC.CoMutex
import AsyncRPC.ServiceRegistry
import Mathlib.Data.Fintype.Defs

/-!
# The index of the registry

`service_` and `iters_` of one registry under calls of its handlers by any number of connections, each
of them in its own fiber. `mutex_` takes all its own steps, the call in `publish` by a handler that has
it already among them, and every use of a container is a step of its own. What is sent is left out, and
of `publish` only its locks, its test and whom it sends to are kept.
-/

namespace AsyncRPC.RegistryIndex

open Emplace ServiceRegistry
open CoMutex (This)

inductive Handler
  | register (name address : Bytes)
  | discover (name : Bytes)
  | subscribe (key : Bytes)
  | unregister (address : Bytes)
  deriving Repr, DecidableEq

inductive Pc (Conn : Type)
  | idle
  | lock (next : Pc Conn)
  | unlock (next : Pc Conn)
  | emplacing (name address : Bytes)
  | pushing (name address : Bytes) (i : Nat)
  | discovering (name : Bytes)
  | subscribing (key : Bytes)
  | finding (address : Bytes)
  | copying (address : Bytes)
  /-- In the loop, with the iterators to come. -/
  | erasing (address : Bytes) (its : List Nat)
  | probing (key : Bytes) (next : Pc Conn)
  | ranging (key : Bytes) (next : Pc Conn)
  | sending (sessions : List Conn) (next : Pc Conn)
  deriving Repr, DecidableEq

def publish {Conn : Type} (key : Bytes) (next : Pc Conn) : Pc Conn := .lock (.probing key next)

def Handler.begin {Conn : Type} : Handler → Pc Conn
  | .register name address => .lock (.emplacing name address)
  | .discover name => .lock (.discovering name)
  | .subscribe key => .lock (.subscribing key)
  | .unregister address => .lock (.finding address)

structure State (Conn : Type) where
  service : List Entry
  iters : Bytes → Option (List Nat)
  subscribe : List (Bytes × Conn)
  /-- How many entries were ever emplaced, which names the next iterator. -/
  emplaced : Nat
  mutex : CoMutex.State Conn
  pc : Conn → Pc Conn

structure New {Conn : Type} (s : State Conn) : Prop where
  service : s.service = []
  iters : ∀ address, s.iters address = none
  subscribe : s.subscribe = []
  mutex : CoMutex.Free s.mutex
  pc : ∀ c, s.pc c = .idle

inductive Label (Conn : Type)
  | call (c : Conn) (handler : Handler)
  | act (c : Conn)
  | advance (c : Conn)
  | resume (c : Conn)
  deriving Repr, DecidableEq

namespace State

variable {Conn : Type} [DecidableEq Conn] (this : Conn → This) (freed : Nat → Bytes)

def goto (s : State Conn) (c : Conn) (pc : Pc Conn) : State Conn :=
  { s with pc := Function.update s.pc c pc }

def stepMutex (s : State Conn) (l : CoMutex.Label Conn) : Option (State Conn) :=
  (s.mutex.step this l).map fun mutex => { s with mutex := mutex }

/-- The next step of a handler; there is none where an iterator is gone. `freed` is what `i->first`
reads after `service_.erase(i)`. -/
def act (s : State Conn) (c : Conn) : Option (State Conn) :=
  match s.pc c with
  | .idle => none
  | .lock next => (s.goto c next).stepMutex this (.lock c)
  | .unlock next => (s.goto c next).stepMutex this (.unlock c)
  | .emplacing name address =>
      some { s.goto c (.pushing name address s.emplaced) with
        service := multi (fun x y => Scalar.string.lt x.name y.name) ⟨s.emplaced, name, address⟩
          s.service
        emplaced := s.emplaced + 1 }
  | .pushing name address i =>
      some { s.goto c (.unlock (publish (rpcServiceSubscribe ++ name) .idle)) with
        iters := Function.update s.iters address (some ((s.iters address).getD [] ++ [i])) }
  | .discovering _ => some (s.goto c (.unlock .idle))
  | .subscribing key =>
      some { s.goto c (.unlock .idle) with subscribe := s.subscribe ++ [(key, c)] }
  | .finding address =>
      match s.iters address with
      | none => some (s.goto c (.unlock .idle))
      | some _ => some (s.goto c (.copying address))
  | .copying address => (s.iters address).map fun its => s.goto c (.erasing address its)
  | .erasing address [] =>
      some { s.goto c (.unlock .idle) with iters := Function.update s.iters address none }
  | .erasing address (i :: its) =>
      if s.service.any fun e => e.iter = i then
        some { s.goto c (publish (rpcServiceSubscribe ++ freed i) (.erasing address its)) with
          service := s.service.eraseP fun e => e.iter = i }
      else none
  | .probing key next =>
      some (s.goto c (.unlock (if s.subscribe.isEmpty then next else .lock (.ranging key next))))
  | .ranging key next =>
      some (s.goto c (.sending ((s.subscribe.filter fun x => x.1 = key).map Prod.snd) next))
  | .sending [] next => some (s.goto c (.unlock next))
  -- `session->sendResponse(response)`, or the session is gone or not connected
  | .sending (_ :: sessions) next => some (s.goto c (.sending sessions next))

def step (s : State Conn) : Label Conn → Option (State Conn)
  | .call c handler =>
      if s.pc c = .idle ∧ s.mutex.pc c = .idle then some (s.goto c handler.begin) else none
  | .act c => if s.mutex.pc c = .idle then s.act this freed c else none
  | .advance c => s.stepMutex this (.advance c)
  | .resume c => s.stepMutex this (.resume c)

def Step (s : State Conn) (l : Label Conn) (t : State Conn) : Prop := s.step this freed l = some t

def Quiet (s : State Conn) : Prop := ∀ c, s.pc c = .idle ∧ s.mutex.pc c = .idle

def listed (s : State Conn) (address : Bytes) : List Nat := (s.iters address).getD []

/-- The iterator refers to an entry of `service_` with the address. -/
def Live (s : State Conn) (address : Bytes) (i : Nat) : Prop :=
  ∃ e ∈ s.service, e.iter = i ∧ e.address = address

/-- Each entry is referenced once under its address, and each reference is to an entry with its
address. -/
structure Indexed (s : State Conn) : Prop where
  once : ∀ e ∈ s.service, (s.listed e.address).count e.iter = 1
  live : ∀ address, ∀ i ∈ s.listed address, s.Live address i

end State

/-- The address that it has found, up to `iters_.erase`. -/
def Pc.found {Conn : Type} : Pc Conn → Option Bytes
  | .copying address | .erasing address _ => some address
  | .lock next | .unlock next | .probing _ next | .ranging _ next | .sending _ next => next.found
  | .idle | .emplacing _ _ | .pushing _ _ _ | .discovering _ | .subscribing _ | .finding _ => none

namespace State

variable {Conn : Type} [DecidableEq Conn]

def uses (s : State Conn) (c : Conn) : Bool :=
  decide (s.mutex.pc c = .idle) &&
    match s.pc c with
    | .emplacing _ _ | .pushing _ _ _ | .discovering _ | .finding _ | .copying _ | .erasing _ _ => true
    | _ => false

/-- The handler whose turn it is uses `service_` or `iters_` while another one is about to, or works
through an address. Nobody can where the mutex is held: these are the accesses that the `unlock` within
`publish` leaves without a lock. -/
def crosses (s : State Conn) : Label Conn → Conn → Bool
  | .act c, other =>
      decide (other ≠ c) && s.uses c && ((s.pc other).found.isSome || s.uses other)
  | _, _ => false

def Apart (s : State Conn) (l : Label Conn) : Prop := ∀ other, s.crosses l other = false

instance [Fintype Conn] (s : State Conn) (l : Label Conn) : Decidable (s.Apart l) :=
  inferInstanceAs (Decidable (∀ other, s.crosses l other = false))

end State

end AsyncRPC.RegistryIndex
