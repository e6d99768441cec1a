import AsyncRPC.Endpoint

/-!
# The receive loops

`handleRecv` of an RPCClient and of an RPCConnectionPool as a whole: the frames that arrive, a null
request ever after, and what the loop does about it. What a frame does to the calls that wait for it is
in `RpcClient` and `PoolCalls`.
-/

namespace AsyncRPC.Endpoint

inductive Action
  | recvRequest
  | handled (frame : Protocol)
  | closed
  | returned
  deriving Repr, DecidableEq

structure Loop where
  endpoint : State
  /-- What `recvRequest` will return; it is null when there is nothing left. -/
  arriving : List Protocol
  log : List Action
  returned : Bool
  deriving Repr, DecidableEq

namespace Loop

def note (loop : Loop) (action : Action) : Loop := { loop with log := loop.log ++ [action] }

def leave (loop : Loop) : Loop := { loop.note .returned with returned := true }

/-- The check in front of the loop. Nothing if it follows a null session. -/
def enter (s : State) (frames : List Protocol) : Option Loop :=
  match s.session with
  | none => none
  | some session =>
      let loop := { endpoint := s, arriving := frames, log := [], returned := false }
      if session.connected then some loop else some loop.leave

/-- One round of `while (true)`; `afterClose` stands behind `close()`. -/
def round (k : Kind) (afterClose : Loop → Loop) (loop : Loop) : Option Loop :=
  if loop.returned then some loop
  else
    let loop := loop.note .recvRequest
    match loop.arriving with
    | [] => do
        let endpoint ← k.close loop.endpoint
        some (afterClose ({ loop with endpoint := endpoint }.note .closed))
    | frame :: rest =>
        let endpoint := k.handleRecv loop.endpoint frame
        some ({ loop with endpoint := endpoint, arriving := rest }.note (.handled frame))

end Loop

/-- `close(); continue;;` -/
def RPCClient.round : Loop → Option Loop := Loop.round .client id

/-- `close(); return;` -/
def RPCConnectionPool.round : Loop → Option Loop := Loop.round .pool Loop.leave

def Kind.round : Kind → Loop → Option Loop
  | .client => RPCClient.round
  | .pool => RPCConnectionPool.round

/-- `handleRecv` after so many rounds. -/
def receive (k : Kind) (s : State) (frames : List Protocol) : Nat → Option Loop
  | 0 => Loop.enter s frames
  | rounds + 1 => (receive k s frames rounds).bind k.round

/-- The log of a loop that has received just these frames. -/
def received (frames : List Protocol) : List Action :=
  frames.flatMap fun frame => [.recvRequest, .handled frame]

/-- It handles every frame once and in order, closes the connection when it receives null, and returns. -/
def ReturnsOnNull (k : Kind) (s : State) (frames : List Protocol) : Prop :=
  ∃ rounds loop, receive k s frames rounds = some loop ∧ loop.returned = true ∧
    loop.log = received frames ++ [.recvRequest, .closed, .returned]

end AsyncRPC.Endpoint
