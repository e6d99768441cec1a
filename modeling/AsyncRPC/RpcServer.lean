import AsyncRPC.ServiceRegistry

/-!
# RPCServer

The handlers of a server and the loop of `handleClient` over the frames of one connection. A function
that is registered takes its arguments to its result and does not throw; each time one is invoked is
recorded.
-/

namespace AsyncRPC.RpcServer

open Emplace ServiceRegistry

/-- What is registered under a name: `arg_tuple_type`, `return_type` and the function. -/
structure Method where
  args : Ty
  ret : Ty
  run : args.Val → ret.Val

structure Invocation where
  name : Bytes
  args : Ty
  val : args.Val

structure Server (Conn : Type) where
  services : Bytes → Option Method
  /-- `subscribes_`, which has one entry for a key at most. -/
  subscribes : List (Bytes × Conn)

/-- `catch (...)` gets it. The others are no exceptions. -/
def thrown : Fault → Bool
  | .outOfRange | .lengthError => true
  | .nullNode | .tempOverrun => false

namespace Method

variable (env : Env) (m : Method)

def answer (rt : m.ret.Val) : Result m.ret := { code := .success, msg := [], val := rt }

def argsNotMatch : Result m.ret :=
  { code := .argsNotMatch, msg := ascii "args not match", val := m.ret.defaultVal }

/-- What `RPCServer::proxy` writes, and the invocation if there is one. -/
def proxy (funName arg : Bytes) (serializer : ByteArray) :
    Except Fault (ByteArray × List Invocation) := do
  let s ← Serializer.ofContent env.heap arg
  match m.args.read env.host env.order m.args.defaultVal s with
  | .ok (args, _) => do
      let serializer ← (m.answer (m.run args)).write env.host env.heap serializer
      .ok (serializer, [{ name := funName, args := m.args, val := args }])
  | .error fault =>
      if thrown fault then do
        let serializer ← m.argsNotMatch.write env.host env.heap serializer
        .ok (serializer, [])
      else .error fault

/-- The function returns values of its type, which fit into a response. -/
def Returns : Prop :=
  ∀ args, m.ret.Valid (m.run args) ∧ ∃ content,
    Serializer.contentOf env.heap ((m.answer (m.run args)).write env.host env.heap) = .ok content

end Method

namespace Server

variable {Conn : Type} (env : Env)

/-- `RPCServer::call` and `toString` of its result. -/
def call (s : Server Conn) (funName args : Bytes) : Except Fault (Bytes × List Invocation) :=
  match s.services funName with
  | none => do
      let content ← (Serializer.create env.heap).toString
      .ok (content, [])
  | some m => do
      let (res, invoked) ← m.proxy env funName args (Serializer.create env.heap)
      let res ← res.setPosition 0
      let content ← res.toString
      .ok (content, invoked)

/-- `s >> funName` and `s.toString()` on the content of a request. -/
def unpack (content : Bytes) : Except Fault (Bytes × Bytes) := do
  let ba ← Serializer.ofContent env.heap content
  let (funName, ba) ← Scalar.string.read env.host ba
  let args ← ba.toString
  .ok (funName, args)

def handleMethodCall (s : Server Conn) (request : Protocol) :
    Except Fault (Protocol × List Invocation) := do
  let (funName, args) ← unpack env request.content
  let (content, invoked) ← s.call env funName args
  .ok ({ Protocol.create .rpcMethodResponse content with sequenceId := request.sequenceId }, invoked)

def emplace (s : Server Conn) (key : Bytes) (client : Conn) : Server Conn :=
  if s.subscribes.any (fun x => x.1 = key) then s
  else { s with subscribes := env.order.place s.subscribes.length (key, client) s.subscribes }

/-- The key of a subscription, and the content of the response to it. -/
def subscription (content : Bytes) : Except Fault (Bytes × Bytes) := do
  let ba ← Serializer.ofContent env.heap content
  let (key, ba) ← Scalar.string.read env.host ba
  let res : Result (.scalar .uint8) := .success env.unset
  -- the serializer that held the request is written over from its start
  let ba ← ba.setPosition 0
  let ba ← res.write env.host env.heap ba
  let content ← ba.toString
  .ok (key, content)

def handleSubscribe (s : Server Conn) (request : Protocol) (client : Conn) :
    Except Fault (Protocol × Server Conn) := do
  let (key, content) ← subscription env request.content
  .ok ({ Protocol.create .rpcSubscribeResponse content with sequenceId := request.sequenceId },
    s.emplace env key client)

def handleHeartBeatPacket : Protocol := Protocol.heartBeat

inductive Exit
  /-- `recvRequest` has returned null. -/
  | ended
  /-- `return` for an `RPC_PUBLISH_RESPONSE`. -/
  | returned
  | faulted (fault : Fault)
  deriving Repr, DecidableEq

/-- One round of the loop in `handleClient`: the response, if any. -/
def handleFrame (s : Server Conn) (client : Conn) (request : Protocol) :
    Except Fault (Option Protocol × Server Conn) :=
  match request.msgType with
  | .heartbeatPacket => .ok (some handleHeartBeatPacket, s)
  | .rpcMethodRequest => do
      let (response, _) ← s.handleMethodCall env request
      .ok (some response, s)
  | .rpcSubscribeRequest => do
      let (response, s) ← s.handleSubscribe env request client
      .ok (some response, s)
  | _ => .ok (none, s)

/-- `handleClient` for the frames that arrive before a null request: the responses it sends, and how it
ends. -/
def handleClient (s : Server Conn) (client : Conn) : List Protocol → List Protocol × Exit
  | [] => ([], .ended)
  | request :: requests =>
      if request.msgType = .rpcPublishResponse then ([], .returned)
      else
        match s.handleFrame env client request with
        | .error fault => ([], .faulted fault)
        | .ok (response, s) =>
            let (responses, exit) := s.handleClient client requests
            (response.toList ++ responses, exit)

/-! ### What the loop has to do -/

/-- The frames that are answered. -/
def asks (request : Protocol) : Bool :=
  match request.msgType with
  | .heartbeatPacket | .rpcMethodRequest | .rpcSubscribeRequest => true
  | _ => false

/-- A response of the kind that a frame asks for, with its sequence id where it takes one. -/
def Answers (request response : Protocol) : Prop :=
  match request.msgType with
  | .heartbeatPacket => response = Protocol.heartBeat
  | .rpcMethodRequest =>
      response.msgType = .rpcMethodResponse ∧ response.sequenceId = request.sequenceId
  | .rpcSubscribeRequest =>
      response.msgType = .rpcSubscribeResponse ∧ response.sequenceId = request.sequenceId
  | _ => False

/-- All frames are processed, and just those that ask are answered, once each and in order. -/
def Serves (s : Server Conn) (client : Conn) (requests : List Protocol) : Prop :=
  (s.handleClient env client requests).2 = .ended ∧
    List.Forall₂ Answers (requests.filter asks) (s.handleClient env client requests).1

end Server

end AsyncRPC.RpcServer
