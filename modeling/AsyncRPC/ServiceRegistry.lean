import AsyncRPC.Address
import AsyncRPC.Lib.Run
import AsyncRPC.Protocol
import Mathlib.Logic.Function.Basic

/-!
# RPCServiceRegistry

The registry and its connections, one step per frame: `handleClient` of every connection with the
handlers it calls, each taken as one atomic step. Timers only close connections, which a connection
can do at any time anyway.
-/

namespace AsyncRPC.ServiceRegistry

open Emplace

abbrev Bytes := List UInt8

/-- What the handlers depend on beside the frames. -/
structure Env where
  host : ByteOrder
  heap : Heap
  order : HashOrder
  /-- What `i->first` reads after `service_.erase(i)`. -/
  freed : Nat → Bytes
  freed_length : ∀ i, (freed i).length < 2 ^ 32
  /-- `val_` of a `Result<>` that nothing has assigned. -/
  unset : BitVec 8

/-- What stops the process: a null pointer, or an exception that nobody catches. -/
inductive Crash
  | nullPointer
  | uncaught (fault : Fault)
  deriving Repr, DecidableEq

def uncaught {α : Type} : Except Fault α → Except Crash α := Except.mapError Crash.uncaught

/-- An entry of `service_`; `iter` stands for the iterators to it. -/
structure Entry where
  iter : Nat
  name : Bytes
  address : Bytes
  deriving Repr, DecidableEq

/-- A connection: the locals of its `handleClient` and what its session has sent. -/
structure Client where
  remote : Address
  connected : Bool
  providerAddr : Option IPv4Address
  sent : List Protocol
  deriving Repr, DecidableEq

structure Registry (Conn : Type) where
  service : List Entry
  iters : Bytes → Option (List Nat)
  subscribe : List (Bytes × Conn)
  /-- The connections accepted so far, also those that are closed. -/
  clients : Conn → Option Client
  /-- How many entries were ever emplaced, which names the next iterator. -/
  emplaced : Nat
  /-- The registrations ever made, each with its connection. The code keeps no such record. -/
  made : List (Conn × Bytes × Bytes)

/-- `std::tuple<bool, std::string>`, what a notice carries. -/
def noticeTy : Ty := .tupleSnoc (.tupleOne (.scalar .bool)) (.scalar .string)

/-- `s << key << data` -/
def putNotice (env : Env) (key : Bytes) (data : Bool × Bytes) (ba : ByteArray) :
    Except Fault ByteArray := do
  let ba ← Scalar.string.write env.host env.heap key ba
  noticeTy.write env.host env.heap data ba

namespace Registry

variable {Conn : Type} [DecidableEq Conn] (env : Env)

def init : Registry Conn :=
  { service := [], iters := fun _ => none, subscribe := [], clients := fun _ => none, emplaced := 0,
    made := [] }

def isConnected (r : Registry Conn) (c : Conn) : Bool := (r.clients c).any Client.connected

def setClient (r : Registry Conn) (c : Conn) (client : Client) : Registry Conn :=
  { r with clients := Function.update r.clients c (some client) }

/-- `session->sendResponse(response)` -/
def sendResponse (r : Registry Conn) (c : Conn) (response : Protocol) : Registry Conn :=
  match r.clients c with
  | none => r
  | some client => r.setClient c { client with sent := client.sent ++ [response] }

def publish (r : Registry Conn) (key : Bytes) (data : Bool × Bytes) : Except Crash (Registry Conn) :=
  if r.subscribe.isEmpty then .ok r
  else do
    let content ← uncaught (Serializer.contentOf env.heap (putNotice env key data))
    let response := Protocol.create .rpcPublishRequest content
    -- a session that is gone or not connected is passed over
    .ok ((r.subscribe.filter fun x => x.1 = key).foldl
      (fun r x => if r.isConnected x.2 then r.sendResponse x.2 response else r) r)

def handleHeartBeatPacket : Protocol := Protocol.heartBeat

def handleProvider (request : Protocol) (remote : Address) : Except Crash IPv4Address := do
  let ba ← uncaught (Serializer.ofContent env.heap request.content)
  let (port, _) ← uncaught (ba.readUint32 env.host)
  match remote with
  | .other => .error .nullPointer
  | .ipv4 address => .ok (address.setPort (port.setWidth 16))

/-- `service_.emplace(name, address)` and `iters_[address].push_back(it)`, for a connection. -/
def emplace (r : Registry Conn) (c : Conn) (name address : Bytes) : Registry Conn :=
  { r with
    service := multi (fun x y => Scalar.string.lt x.name y.name) ⟨r.emplaced, name, address⟩ r.service
    iters := Function.update r.iters address (some ((r.iters address).getD [] ++ [r.emplaced]))
    emplaced := r.emplaced + 1
    made := r.made ++ [(c, name, address)] }

def handleServiceRegister (r : Registry Conn) (c : Conn) (request : Protocol)
    (providerAddr : Option IPv4Address) : Except Crash (Protocol × Registry Conn) :=
  match providerAddr with
  | none => .error .nullPointer
  | some providerAddr => do
      let serviceName := request.content
      let serviceAddress := providerAddr.toString
      let r := r.emplace c serviceName serviceAddress
      let res : Result (.scalar .string) := .success serviceName
      let content ← uncaught (Serializer.contentOf env.heap (res.write env.host env.heap))
      let r ← r.publish env (rpcServiceSubscribe ++ serviceName) (true, serviceAddress)
      .ok (Protocol.create .rpcServiceDiscoverResponse content, r)

def discovered (r : Registry Conn) (serviceName : Bytes) : List (Result (.scalar .string)) :=
  let range := r.service.filter fun e => e.name = serviceName
  if range.isEmpty then
    [{ code := .noMethod, msg := ascii "discover service: " ++ serviceName, val := [] }]
  else range.map fun e => { code := .success, msg := [], val := e.address }

def handleServiceDiscover (r : Registry Conn) (request : Protocol) : Except Crash Protocol := do
  let serviceName := request.content
  let result := r.discovered serviceName
  let cnt : BitVec 32 := BitVec.ofNat 32 result.length
  let content ← uncaught (Serializer.contentOf env.heap fun ba => do
    let ba ← Scalar.string.write env.host env.heap serviceName ba
    let ba ← Scalar.uint32.write env.host env.heap cnt ba
    (result.take cnt.toNat).foldlM (fun ba res => res.write env.host env.heap ba) ba)
  .ok (Protocol.create .rpcServiceDiscoverResponse content)

def handleSubscribe (r : Registry Conn) (c : Conn) (request : Protocol) :
    Except Crash (Protocol × Registry Conn) := do
  let ba ← uncaught (Serializer.ofContent env.heap request.content)
  let (key, ba) ← uncaught (Scalar.string.read env.host ba)
  let r := { r with subscribe := env.order.place r.subscribe.length (key, c) r.subscribe }
  let res : Result (.scalar .uint8) := .success env.unset
  -- the serializer that held the request is written over from its start
  let ba ← uncaught (ba.setPosition 0)
  let ba ← uncaught (res.write env.host env.heap ba)
  let content ← uncaught ba.toString
  .ok (Protocol.create .rpcSubscribeResponse content, r)

/-- One round of the loop in `handleUnregisterService`. -/
def unregister (address : Bytes) (r : Registry Conn) (i : Nat) : Except Crash (Registry Conn) :=
  let r := { r with service := r.service.eraseP fun e => e.iter = i }
  r.publish env (rpcServiceSubscribe ++ env.freed i) (false, address)

def handleUnregisterService (r : Registry Conn) (providerAddr : IPv4Address) :
    Except Crash (Registry Conn) :=
  let address := providerAddr.toString
  match r.iters address with
  | none => .ok r
  | some its => do
      let r ← its.foldlM (unregister env address) r
      .ok { r with iters := Function.update r.iters address none }

/-- One round of the loop in `handleClient` that has received a frame. -/
def handleFrame (r : Registry Conn) (c : Conn) (client : Client) (request : Protocol) :
    Except Crash (Registry Conn) :=
  match request.msgType with
  | .heartbeatPacket => .ok (r.sendResponse c handleHeartBeatPacket)
  | .rpcProvider => do
      let providerAddr ← handleProvider env request client.remote
      .ok (r.setClient c { client with providerAddr := some providerAddr })
  | .rpcServiceRegister => do
      let (response, r) ← r.handleServiceRegister env c request client.providerAddr
      .ok (r.sendResponse c response)
  | .rpcServiceDiscover => do
      let response ← r.handleServiceDiscover env request
      .ok (r.sendResponse c response)
  | .rpcSubscribeRequest => do
      let (response, r) ← r.handleSubscribe env c request
      .ok (r.sendResponse c response)
  | _ => .ok r

def disconnect (r : Registry Conn) (c : Conn) : Registry Conn :=
  match r.clients c with
  | none => r
  | some client => r.setClient c { client with connected := false }

/-- The last round, in which `recvRequest` returns null. -/
def handleClosed (r : Registry Conn) (c : Conn) (client : Client) : Except Crash (Registry Conn) := do
  let r ← match client.providerAddr with
    | none => .ok r
    | some providerAddr => r.handleUnregisterService env providerAddr
  .ok (r.disconnect c)

/-! ### Runs of the registry -/

inductive Event (Conn : Type)
  | accept (c : Conn) (remote : Address)
  | frame (c : Conn) (request : Protocol)
  | close (c : Conn)

def perform (r : Registry Conn) : Event Conn → Except Crash (Registry Conn)
  | .accept c remote =>
      .ok (r.setClient c { remote := remote, connected := true, providerAddr := none, sent := [] })
  | .frame c request =>
      match r.clients c with
      | none => .ok r
      | some client => r.handleFrame env c client request
  | .close c =>
      match r.clients c with
      | none => .ok r
      | some client => r.handleClosed env c client

/-- A frame whose content its handler can take: an announced port or a key that decodes, a response
that fits into memory. -/
def Served (r : Registry Conn) (c : Conn) (request : Protocol) : Prop :=
  ∀ client, r.clients c = some client →
    match request.msgType with
    | .rpcProvider => ∃ address, handleProvider env request client.remote = .ok address
    | .rpcServiceRegister => client.providerAddr.isSome = true
    | .rpcServiceDiscover => ∃ response, r.handleServiceDiscover env request = .ok response
    | .rpcSubscribeRequest => ∃ response r', r.handleSubscribe env c request = .ok (response, r')
    | _ => True

/-- Every connection is new when it is accepted, and only open ones send frames and close. The length
of a frame is a `uint32_t`. -/
def Possible (r : Registry Conn) : Event Conn → Prop
  | .accept c _ => r.clients c = none
  | .frame c request =>
      r.isConnected c = true ∧ request.content.length < 2 ^ 32 ∧ r.Served env c request
  | .close c => r.isConnected c = true

/-- The registrations made over connections that are still open. -/
def standing (r : Registry Conn) : List (Conn × Bytes × Bytes) :=
  r.made.filter fun x => r.isConnected x.1

/-- `service_` is the standing registrations, as a multiset. -/
def Law (r : Registry Conn) : Prop :=
  (r.service.map fun e => (e.name, e.address)).Perm (r.standing.map Prod.snd)

/-- A connection closes only if all its registrations were made under the address it announced last,
and no other open connection has one under that address. -/
def Keeps (r : Registry Conn) : Event Conn → Prop
  | .close c =>
      ∀ client providerAddr, r.clients c = some client → client.providerAddr = some providerAddr →
        ∀ x ∈ r.standing, x.1 = c ↔ x.2.2 = providerAddr.toString
  | _ => True

/-! ### The frames of one connection -/

/-- The loop of `handleClient`, for frames that arrive one after the other. -/
def handleClient (r : Registry Conn) (c : Conn) (requests : List Protocol) :
    Except Crash (Registry Conn) :=
  requests.foldlM (fun r request => r.perform env (.frame c request)) r

def fromProvider (request : Protocol) : Bool :=
  match request.msgType with
  | .rpcProvider | .rpcServiceRegister => true
  | _ => false

/-- No null pointer is followed, and every provider's request that the loop comes to is got through. -/
structure Withstands (r : Registry Conn) (c : Conn) (requests : List Protocol) : Prop where
  safe : r.handleClient env c requests ≠ .error .nullPointer
  served : ∀ before request r', before ++ [request] <+: requests →
    r.handleClient env c before = .ok r' → fromProvider request = true →
      ∃ r'', r'.perform env (.frame c request) = .ok r''

/-- Of the requests that the loop comes to, one that announces a provider is from a peer with an IPv4
address, and one that registers a service has one that announces before it. -/
def Introduced (r : Registry Conn) (c : Conn) (remote : Address) (requests : List Protocol) : Prop :=
  ∀ before request r', before ++ [request] <+: requests → r.handleClient env c before = .ok r' →
    (request.msgType = .rpcProvider → remote ≠ .other) ∧
      (request.msgType = .rpcServiceRegister →
        ∃ earlier ∈ before, earlier.msgType = .rpcProvider)

end Registry

end AsyncRPC.ServiceRegistry
