import AsyncRPC.Protocol
import Mathlib.Data.List.Infix

/-!
# The connection of an RPCClient and of an RPCConnectionPool

Both classes hold one session, open it in `connect`, watch it by a heartbeat timer and give it up in
`close`. The calls that `RPCClient::close` notifies are in `RpcClientClose`; the clients that
`RPCConnectionPool::close` closes on its way are objects of the first class, with a life of their own.
-/

namespace AsyncRPC.Endpoint

/-- An `RPCSession`; the number tells which connection it is. -/
structure Session where
  id : Nat
  connected : Bool
  deriving Repr, DecidableEq

inductive Attempt
  /-- `Socket::CreateTCP` gives null. -/
  | noSocket
  /-- `sock->connect` is false. -/
  | refused
  | established (id : Nat)
  deriving Repr, DecidableEq

structure State where
  /-- `session_` of a client, `registry_` of a pool. -/
  session : Option Session
  isClosed : Bool
  isHeartclose : Bool
  autoHeartbeat : Bool
  heartbeatTimer : Bool
  channelClosed : Bool
  sent : List Protocol
  deriving Repr, DecidableEq

namespace State

/-- As a constructor leaves the object. It sets neither `is_closed_` nor `is_heartclose_`. -/
structure New (s : State) : Prop where
  session : s.session = none
  heartbeatTimer : s.heartbeatTimer = false
  channelClosed : s.channelClosed = false
  sent : s.sent = []

def isConnected (s : State) : Bool := s.session.any Session.connected

def push (s : State) (message : Protocol) : State :=
  if s.channelClosed then s else { s with sent := s.sent ++ [message] }

end State

/-! ### RPCClient -/

namespace RPCClient

def connect (s : State) : Attempt → State
  | .noSocket => s
  | .refused => { s with session := none }
  | .established id =>
      { s with
        session := some ⟨id, true⟩
        channelClosed := false
        sent := []
        isHeartclose := false
        isClosed := false
        heartbeatTimer := s.autoHeartbeat || s.heartbeatTimer }

/-- Nothing if it follows a null `session_`. -/
def close (s : State) : Option State :=
  if s.isClosed then some s
  else
    let s := { s with isHeartclose := true, isClosed := true, channelClosed := true }
    let s := { s with heartbeatTimer := false }
    match s.session with
    | none => none
    | some session => some { s with session := some { session with connected := false } }

/-- What the heartbeat timer runs. -/
def heartbeat (s : State) : Option State := do
  let s ← if s.isHeartclose then close s else some s
  let s := s.push Protocol.heartBeat
  some { s with isHeartclose := true }

def handleRecv (s : State) (response : Protocol) : State :=
  let s := { s with isHeartclose := false }
  match response.msgType with
  | .heartbeatPacket => { s with isHeartclose := false }
  | .rpcPublishRequest => s.push (Protocol.create .rpcPublishResponse [])
  | _ => s

end RPCClient

/-! ### RPCConnectionPool -/

namespace RPCConnectionPool

def connect (s : State) : Attempt → State
  | .noSocket => s
  | .refused => s
  | .established id =>
      { s with
        session := some ⟨id, true⟩
        channelClosed := false
        sent := []
        isClosed := false
        isHeartclose := false
        heartbeatTimer := s.autoHeartbeat || s.heartbeatTimer }

/-- Nothing if it follows a null `registry_`. -/
def close (s : State) : Option State :=
  if s.isClosed then some s
  else
    let s := { s with isClosed := true, isHeartclose := true, channelClosed := true }
    let s := { s with heartbeatTimer := false }
    match s.session with
    | none => none
    | some session => some { s with session := some { session with connected := false } }

def heartbeat (s : State) : Option State := do
  let s ← if s.isHeartclose then close s else some s
  some (s.push Protocol.heartBeat)

def handleRecv (s : State) (request : Protocol) : State :=
  let s := { s with isHeartclose := false }
  match request.msgType with
  | .heartbeatPacket => { s with isHeartclose := false }
  | .rpcPublishRequest => s.push (Protocol.create .rpcPublishResponse [])
  | _ => s

end RPCConnectionPool

/-! ### Either class -/

inductive Kind
  | client
  | pool
  deriving Repr, DecidableEq

namespace Kind

def connect : Kind → State → Attempt → State
  | .client => RPCClient.connect
  | .pool => RPCConnectionPool.connect

def close : Kind → State → Option State
  | .client => RPCClient.close
  | .pool => RPCConnectionPool.close

def heartbeat : Kind → State → Option State
  | .client => RPCClient.heartbeat
  | .pool => RPCConnectionPool.heartbeat

def handleRecv : Kind → State → Protocol → State
  | .client => RPCClient.handleRecv
  | .pool => RPCConnectionPool.handleRecv

end Kind

/-! ### Ticks and frames -/

inductive Event
  | tick
  | frame (message : Protocol)
  deriving Repr, DecidableEq

/-- Without its timer there is no tick, without a connection no frame. -/
def perform (k : Kind) (s : State) : Event → Option State
  | .tick => if s.heartbeatTimer then k.heartbeat s else some s
  | .frame message => some (if s.isConnected then k.handleRecv s message else s)

def watch (k : Kind) (s : State) (events : List Event) : Option State := events.foldlM (perform k) s

def Silent (events : List Event) : Prop := events.getLast? = some .tick

/-- A tick of an open connection closes it just if nothing was received since the tick before. -/
def Supervised (k : Kind) (s : State) (events : List Event) : Prop :=
  ∀ before, before ++ [.tick] <+: events → ∃ r r', watch k s before = some r ∧
    perform k r .tick = some r' ∧ (r.isConnected = true → (r'.isConnected = false ↔ Silent before))

/-- Both classes supervise their connections, which are open at the same times. -/
structure BothSupervised (s : Kind → State) (events : List Event) : Prop where
  each : ∀ k, Supervised k (s k) events
  alike : ∀ before, before <+: events → (watch .client (s .client) before).map State.isConnected
    = (watch .pool (s .pool) before).map State.isConnected

/-! ### Connecting and closing -/

inductive Op
  | connect (attempt : Attempt)
  | close
  deriving Repr, DecidableEq

def act (k : Kind) (s : State) : Op → Option State
  | .connect attempt => some (k.connect s attempt)
  | .close => k.close s

def run (k : Kind) (s : State) (ops : List Op) : Option State := ops.foldlM (act k) s

/-- A connection that was established and not closed since. -/
structure Standing where
  id : Nat
  /-- An attempt to connect was refused meanwhile. -/
  refused : Bool
  deriving Repr, DecidableEq

def Op.standing (last : Option Standing) : Op → Option Standing
  | .connect .noSocket => last
  | .connect .refused => last.map fun x => { x with refused := true }
  | .connect (.established id) => some ⟨id, false⟩
  | .close => none

def standing (ops : List Op) : Option Standing := ops.foldl Op.standing none

/-- Every `close`, the destructor's at the end included, goes through; it closes the connection that
stands, and changes nothing if the last one is closed already. -/
def ClosesWell (k : Kind) (s : State) (ops : List Op) : Prop :=
  ∀ before, before ++ [.close] <+: ops ++ [.close] → ∃ r r', run k s before = some r ∧
    k.close r = some r' ∧ (∀ x, standing before = some x → r'.session = some ⟨x.id, false⟩) ∧
    (standing before = none → (∃ id, .connect (.established id) ∈ before) → r' = r)

/-- `is_closed_` happens to be set, or a connection is established before the first `close`; and a
client is not refused another while one stands that is to be closed. -/
def Prepared (k : Kind) (isClosed : Bool) (ops : List Op) : Prop :=
  ∀ before, before ++ [.close] <+: ops ++ [.close] →
    (isClosed = true ∨ .close ∈ before ∨ (standing before).isSome = true) ∧
      (k = .client → ∀ x, standing before = some x → x.refused = false)

end AsyncRPC.Endpoint
