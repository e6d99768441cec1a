import AsyncRPC.RpcServer

/-!
# Publications of RPCServer

The table `subscribes_` of one server over the life of its sessions: subscriptions, connections that
close, sessions that go, the passes of the coroutine that `start` submits, and any number of calls of
`publish`. The critical sections of `mutex_` are one step each, and `publish` has two.
-/

namespace AsyncRPC.Publish

open ServiceRegistry RpcServer

/-- A session: its socket may be closed before the object goes, and goes with it. -/
inductive Status
  | unknown
  | connected
  | disconnected
  | gone
  deriving Repr, DecidableEq

/-- Where a call of `publish` is. Beside what it works with there is what the call is held to: who had
subscribed to the key when it was made, and who of them was still connected at its end. -/
inductive Pc (Conn : Type)
  | idle
  | sending (key content : Bytes) (subscribers : List Conn)
  | returned (content : Bytes) (owed : List Conn) (sent : List (Conn × Protocol))
  deriving Repr, DecidableEq

structure State (Conn P : Type) where
  server : Server Conn
  status : Conn → Status
  /-- The subscriptions ever answered with success. The code keeps no such record. -/
  subscribed : List (Bytes × Conn)
  pc : P → Pc Conn

structure New {Conn P : Type} (s : State Conn P) : Prop where
  subscribes : s.server.subscribes = []
  status : ∀ c, s.status c = .unknown
  subscribed : s.subscribed = []
  pc : ∀ p, s.pc p = .idle

inductive Label (Conn P : Type)
  | accept (c : Conn)
  | subscribe (c : Conn) (key : Bytes)
  | disconnect (c : Conn)
  | expire (c : Conn)
  /-- One pass of the coroutine. -/
  | clean
  /-- `publish`, up to the first unlock; `content` is what the key and the data are written as. -/
  | publish (p : P) (key content : Bytes)
  | send (p : P)
  deriving Repr, DecidableEq

def request (content : Bytes) : Protocol := Protocol.create .rpcPublishRequest content

namespace State

variable {Conn P : Type} [DecidableEq Conn] [DecidableEq P] (env : Env)

def isConnected (s : State Conn P) (c : Conn) : Bool := s.status c = .connected

def setStatus (s : State Conn P) (c : Conn) (status : Status) : State Conn P :=
  { s with status := Function.update s.status c status }

def goto (s : State Conn P) (p : P) (pc : Pc Conn) : State Conn P :=
  { s with pc := Function.update s.pc p pc }

def subscribers (s : State Conn P) (key : Bytes) : List Conn :=
  (s.subscribed.filter fun x => x.1 = key).map Prod.snd

/-- The loop over `subscribes_.equal_range(key)`. -/
def sendAll (s : State Conn P) (key content : Bytes) : List (Conn × Protocol) :=
  (((s.server.subscribes.filter fun x => x.1 = key).map Prod.snd).filter s.isConnected).map
    fun c => (c, request content)

def step (s : State Conn P) : Label Conn P → Option (State Conn P)
  | .accept c => if s.status c = .unknown then some (s.setStatus c .connected) else none
  | .subscribe c key =>
      match s.status c with
      -- a frame that was received before its socket was closed is handled all the same
      | .connected | .disconnected =>
          some { s with
            server := s.server.emplace env key c
            subscribed := s.subscribed ++ [(key, c)] }
      | _ => none
  | .disconnect c => if s.status c = .connected then some (s.setStatus c .disconnected) else none
  | .expire c =>
      match s.status c with
      | .connected | .disconnected => some (s.setStatus c .gone)
      | _ => none
  | .clean =>
      some { s with server := { s.server with
        subscribes := s.server.subscribes.filter fun x => s.isConnected x.2 } }
  | .publish p key content =>
      match s.pc p with
      | .idle =>
          if s.server.subscribes = [] then
            some (s.goto p (.returned content ((s.subscribers key).filter s.isConnected) []))
          else some (s.goto p (.sending key content (s.subscribers key)))
      | _ => none
  | .send p =>
      match s.pc p with
      | .sending key content subscribers =>
          some (s.goto p
            (.returned content (subscribers.filter s.isConnected) (s.sendAll key content)))
      | _ => none

def Step (s : State Conn P) (l : Label Conn P) (t : State Conn P) : Prop := s.step env l = some t

/-- Every call of `publish` that has returned has sent its request to everyone it was owed to. -/
def Delivered (s : State Conn P) : Prop :=
  ∀ p content owed sent, s.pc p = .returned content owed sent →
    ∀ c ∈ owed, (c, request content) ∈ sent

/-- A connected session subscribes to a key only while the entry for the key, if there is one, is its
own. -/
def Lone (s : State Conn P) : Label Conn P → Prop
  | .subscribe c key =>
      s.isConnected c = true → ∀ x ∈ s.server.subscribes, x.1 = key → x.2 = c
  | _ => True

instance (s : State Conn P) : (l : Label Conn P) → Decidable (s.Lone l)
  | .subscribe c key => inferInstanceAs (Decidable
      (s.isConnected c = true → ∀ x ∈ s.server.subscribes, x.1 = key → x.2 = c))
  | .accept _ | .disconnect _ | .expire _ | .clean | .publish _ _ _ | .send _ =>
      inferInstanceAs (Decidable True)

end State

end AsyncRPC.Publish
