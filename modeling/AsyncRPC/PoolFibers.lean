import AsyncRPC.Lib.Run
import AsyncRPC.Rpc
import Mathlib.Logic.Function.Basic

/-!
# The fibers of RPCConnectionPool

One fiber that makes calls of the pool, the pool's two fibers `handleSend` and `handleRecv`, and the
registry at the other end of the connection. A critical section in which nothing can wait is one step,
which needs its mutex free; where a fiber waits with a mutex taken, that is a place of its own.

`~ScopedLock` unlocks whether or not `lock.unlock()` came before, so a call that has left
`connect_mutex_` releases it once more when it returns, whoever has it then. What `RPCClient::call` and
`connect` do is left to the outside, except for their results.
-/

namespace AsyncRPC.PoolFibers

/-- A message of the registry; a response lists addresses unless one of its results is
`RPC_NO_METHOD`. -/
inductive Frame (Name Addr : Type)
  | notice (name : Name) (serviceLaunch : Bool) (addr : Addr)
  | response (name : Name) (found : Option (List Addr))
  deriving Repr, DecidableEq

def Frame.isResponse {Name Addr : Type} : Frame Name Addr → Bool
  | .response _ _ => true
  | .notice _ _ _ => false

inductive Request (Name : Type)
  | discover (name : Name)
  | subscribe (name : Name)
  | publishResponse
  deriving Repr, DecidableEq

inductive CallPc (Name Addr : Type)
  | idle
  | locking (name : Name)
  | entered (name : Name)
  | calling (name : Name)
  | relocking (name : Name)
  | removing (name : Name)
  | looking (name : Name)
  | discovering (name : Name)
  | emplacing (name : Name)
  | sending (name : Name)
  /-- In `recv_chan >> response`. -/
  | waiting (name : Name)
  | erasing (name : Name) (found : Option (List Addr))
  | subscribing (name : Name) (result : List Addr)
  | requesting (name : Name) (result : List Addr)
  | assigning (name : Name) (result : List Addr)
  | connecting (name : Name)
  | callingNew
  | leaving (code : RPCState)
  deriving Repr, DecidableEq

inductive RecvPc (Name Addr : Type)
  | receiving
  | publishing (name : Name) (serviceLaunch : Bool) (addr : Addr)
  /-- In the callback, before `connect_mutex_`. -/
  | locking (name : Name) (serviceLaunch : Bool) (addr : Addr)
  | inCallback (name : Name) (serviceLaunch : Bool) (addr : Addr)
  | answering
  | finding (name : Name) (found : Option (List Addr))
  | pushing (found : Option (List Addr))
  | closing
  | inClose
  | stopped
  deriving Repr, DecidableEq

/-- In `connect_mutex_.lock()`. -/
def RecvPc.wantsConnect {Name Addr : Type} : RecvPc Name Addr → Bool
  | .locking _ _ _ | .closing => true
  | _ => false

/-- On the way to `connect_mutex_`. -/
def RecvPc.bound {Name Addr : Type} : RecvPc Name Addr → Bool
  | .publishing _ _ _ | .locking _ _ _ | .closing => true
  | _ => false

/-- In `discover`, up to where it takes the response. -/
def CallPc.asks {Name Addr : Type} : CallPc Name Addr → Bool
  | .emplacing _ | .sending _ | .waiting _ => true
  | _ => false

def CallPc.isDiscovering {Name Addr : Type} : CallPc Name Addr → Bool
  | .discovering _ => true
  | _ => false

structure State (Name Addr : Type) where
  connectMutex : Bool
  methodMapMutex : Bool
  subscribeHandleMutex : Bool
  /-- The remote address of the client there is for a service. -/
  serviceMap : Name → Option Addr
  addressMap : Name → List Addr
  methodMap : Name → Bool
  /-- The channel of the last `discover`. -/
  recvChan : List (Option (List Addr))
  /-- The services whose notices have a callback. -/
  subscribeHandle : Name → Bool
  /-- `close` has been through: `channel_` and the session are closed as well. -/
  isClosed : Bool
  channel : List (Request Name)
  call : CallPc Name Addr
  recv : RecvPc Name Addr
  result : Option RPCState
  /-- The registry has its end open. -/
  open_ : Bool
  /-- What the registry is still to answer, and whom it notifies. -/
  requests : List Name
  subscribers : Name → Bool
  /-- The frames on their way from the registry. -/
  inbox : List (Frame Name Addr)

structure New {Name Addr : Type} (s : State Name Addr) : Prop where
  connectMutex : s.connectMutex = false
  methodMapMutex : s.methodMapMutex = false
  subscribeHandleMutex : s.subscribeHandleMutex = false
  serviceMap : ∀ name, s.serviceMap name = none
  addressMap : ∀ name, s.addressMap name = []
  methodMap : ∀ name, s.methodMap name = false
  subscribeHandle : ∀ name, s.subscribeHandle name = false
  isClosed : s.isClosed = false
  channel : s.channel = []
  call : s.call = .idle
  recv : s.recv = .receiving
  requests : s.requests = []
  subscribers : ∀ name, s.subscribers name = false
  inbox : s.inbox = []

inductive Label (Name Addr : Type)
  | call (name : Name)
  | caller
  | answered (code : RPCState)
  /-- `select`, `LookupAny` and `connect` give a client of the address, or fail. -/
  | connect (addr : Option Addr)
  | send
  | receive
  | receiver
  | notice (name : Name) (serviceLaunch : Bool) (addr : Addr)
  | respond (name : Name) (found : Option (List Addr))
  | disconnect
  deriving Repr, DecidableEq

namespace State

variable {Name Addr : Type} [DecidableEq Name] [DecidableEq Addr]

/-- `channel_ << request`, which waits while the channel is full and does nothing once it is closed. -/
def push (s : State Name Addr) (request : Request Name) : Option (State Name Addr) :=
  if s.isClosed then some s
  else if s.channel = [] then some { s with channel := [request] }
  else none

def caller (s : State Name Addr) : Option (State Name Addr) :=
  match s.call with
  | .idle | .calling _ | .connecting _ | .callingNew => none
  | .locking name =>
      if s.connectMutex then none else some { s with connectMutex := true, call := .entered name }
  | .entered name =>
      match s.serviceMap name with
      | some _ => some { s with connectMutex := false, call := .calling name }
      | none => some { s with call := .looking name }
  | .relocking name =>
      if s.connectMutex then none else some { s with connectMutex := true, call := .removing name }
  | .removing name =>
      let addrs := match s.serviceMap name with
        | some addr => (s.addressMap name).erase addr
        | none => s.addressMap name
      some { s with
        addressMap := Function.update s.addressMap name addrs
        serviceMap := Function.update s.serviceMap name none
        call := .looking name }
  | .looking name =>
      if s.addressMap name ≠ [] then some { s with call := .connecting name }
      else if s.isClosed then some { s with call := .leaving .closed }
      else some { s with call := .discovering name }
  | .discovering name =>
      if s.isClosed then some { s with call := .assigning name [] }
      else some { s with recvChan := [], call := .emplacing name }
  | .emplacing name =>
      if s.methodMapMutex then none
      else some { s with methodMap := Function.update s.methodMap name true, call := .sending name }
  | .sending name => ({ s with call := .waiting name } : State Name Addr).push (.discover name)
  | .waiting name =>
      match s.recvChan with
      | [] => none
      | found :: rest => some { s with recvChan := rest, call := .erasing name found }
  | .erasing name found =>
      if s.methodMapMutex then none
      else
        let call := match found with
          | none => .assigning name []
          | some result =>
              if s.subscribeHandle name then .assigning name result else .subscribing name result
        some { s with methodMap := Function.update s.methodMap name false, call := call }
  | .subscribing name result =>
      if s.subscribeHandleMutex then none
      -- `RPC_ASSERT2(false, "duplicated subscribe")`
      else if s.subscribeHandle name then none
      else
        some { s with
          subscribeHandleMutex := true
          subscribeHandle := Function.update s.subscribeHandle name true
          call := .requesting name result }
  | .requesting name result =>
      ({ s with call := .assigning name result, subscribeHandleMutex := false } :
        State Name Addr).push (.subscribe name)
  | .assigning name result =>
      some { s with
        addressMap := Function.update s.addressMap name result
        call := if result = [] then .leaving .noMethod else .connecting name }
  -- `~ScopedLock`
  | .leaving code => some { s with connectMutex := false, result := some code, call := .idle }

def callback (s : State Name Addr) (name : Name) (serviceLaunch : Bool) (addr : Addr) :
    State Name Addr :=
  let addrs := if serviceLaunch then (s.addressMap name).erase addr else s.addressMap name ++ [addr]
  { s with addressMap := Function.update s.addressMap name addrs }

def receiver (s : State Name Addr) : Option (State Name Addr) :=
  match s.recv with
  | .receiving | .stopped => none
  | .publishing name serviceLaunch addr =>
      if s.subscribeHandleMutex then none
      else if s.subscribeHandle name then
        some { s with subscribeHandleMutex := true, recv := .locking name serviceLaunch addr }
      else some { s with recv := .answering }
  | .locking name serviceLaunch addr =>
      if s.connectMutex then none
      else some { s with connectMutex := true, recv := .inCallback name serviceLaunch addr }
  | .inCallback name serviceLaunch addr =>
      some { s.callback name serviceLaunch addr with
        connectMutex := false, subscribeHandleMutex := false, recv := .answering }
  | .answering => ({ s with recv := .receiving } : State Name Addr).push .publishResponse
  | .finding name found =>
      if s.methodMapMutex then none
      else if s.methodMap name then some { s with methodMapMutex := true, recv := .pushing found }
      else some { s with recv := .receiving }
  | .pushing found =>
      if s.recvChan = [] then
        some { s with recvChan := [found], methodMapMutex := false, recv := .receiving }
      else none
  | .closing =>
      if s.connectMutex then none else some { s with connectMutex := true, recv := .inClose }
  | .inClose =>
      some { s with isClosed := true, channel := [], connectMutex := false, recv := .stopped }

/-- What `handleRecv` turns to when `recvRequest` has returned. -/
def receive (s : State Name Addr) : Option (State Name Addr) :=
  match s.recv with
  | .receiving =>
      match s.inbox with
      | .notice name serviceLaunch addr :: rest =>
          some { s with inbox := rest, recv := .publishing name serviceLaunch addr }
      | .response name found :: rest => some { s with inbox := rest, recv := .finding name found }
      | [] => if s.open_ then none else some { s with recv := .closing }
  | _ => none

def deliver (s : State Name Addr) : Request Name → State Name Addr
  | .discover name => { s with requests := s.requests ++ [name] }
  | .subscribe name => { s with subscribers := Function.update s.subscribers name true }
  | .publishResponse => s

def step (s : State Name Addr) : Label Name Addr → Option (State Name Addr)
  | .call name =>
      match s.call with
      | .idle => some { s with call := .locking name }
      | _ => none
  | .caller => s.caller
  | .answered code =>
      match s.call with
      | .calling name =>
          some { s with call := if code = .closed then .relocking name else .leaving code }
      | .callingNew => some { s with call := .leaving code }
      | _ => none
  | .connect addr =>
      match s.call, addr with
      | .connecting _, none => some { s with call := .leaving .fail }
      | .connecting name, some addr =>
          if addr ∈ s.addressMap name then
            some { s with
              serviceMap := Function.update s.serviceMap name ((s.serviceMap name).or (some addr))
              connectMutex := false
              call := .callingNew }
          else none
      | _, _ => none
  | .send =>
      match s.channel with
      | [] => none
      | request :: rest =>
          let s := { s with channel := rest }
          some (if s.open_ then s.deliver request else s)
  | .receive => s.receive
  | .receiver => s.receiver
  | .notice name serviceLaunch addr =>
      if s.open_ ∧ s.subscribers name then
        some { s with inbox := s.inbox ++ [.notice name serviceLaunch addr] }
      else none
  | .respond name found =>
      if s.open_ ∧ name ∈ s.requests then
        some { s with requests := s.requests.erase name, inbox := s.inbox ++ [.response name found] }
      else none
  | .disconnect => if s.open_ then some { s with open_ := false } else none

def Step (s : State Name Addr) (l : Label Name Addr) (t : State Name Addr) : Prop :=
  s.step l = some t

/-- `handleRecv` is parked on `connect_mutex_`, and the call that has it is parked in `discover`. -/
structure Deadlocked (s : State Name Addr) : Prop where
  recv : s.recv.wantsConnect = true
  taken : s.connectMutex = true
  call : ∃ name, s.call = .waiting name
  empty : s.recvChan = []

/-- A call is in `discover`, and its response has not come. -/
def Awaits (s : State Name Addr) : Prop :=
  s.connectMutex = true ∧ s.call.asks = true ∧ s.recvChan = []

/-- While a call awaits its response, the next frame that `handleRecv` gets is a response; and
`discover` begins only while `handleRecv` is not on its way to `connect_mutex_`. -/
def Orderly (s : State Name Addr) : Label Name Addr → Prop
  | .receive => s.Awaits → s.inbox.head?.any Frame.isResponse = true
  | .caller => s.call.isDiscovering = true → s.connectMutex = true → s.recv.bound = false
  | _ => True

instance (s : State Name Addr) : Decidable s.Awaits :=
  inferInstanceAs (Decidable (s.connectMutex = true ∧ s.call.asks = true ∧ s.recvChan = []))

instance (s : State Name Addr) : (l : Label Name Addr) → Decidable (s.Orderly l)
  | .receive => inferInstanceAs (Decidable (s.Awaits → s.inbox.head?.any Frame.isResponse = true))
  | .caller => inferInstanceAs (Decidable
      (s.call.isDiscovering = true → s.connectMutex = true → s.recv.bound = false))
  | .call _ | .answered _ | .connect _ | .send | .receiver | .notice _ _ _ | .respond _ _
  | .disconnect => inferInstanceAs (Decidable True)

end State

end AsyncRPC.PoolFibers
