import AsyncRPC.Rpc

/-!
# Protocol

A message of the wire protocol. `type_` is a byte, and a peer can put any value there.
-/

namespace AsyncRPC

inductive MsgType
  | heartbeatPacket
  | rpcRequest
  | rpcResponse
  | rpcMethodRequest
  | rpcMethodResponse
  | rpcServiceDiscover
  | rpcServiceDiscoverResponse
  | rpcServiceRegister
  | rpcServiceRegisterResponse
  | rpcSubscribeRequest
  | rpcSubscribeResponse
  | rpcPublishRequest
  | rpcPublishResponse
  | rpcProvider
  | rpcConsumer
  /-- The value `15 + n`, which has no name. -/
  | unnamed (n : Fin (2 ^ 8 - 15))
  deriving Repr, DecidableEq

structure Protocol where
  msgType : MsgType
  sequenceId : BitVec 32
  content : List UInt8
  deriving Repr, DecidableEq

namespace Protocol

/-- `Protocol::Create` with the default sequence id. -/
def create (type : MsgType) (content : List UInt8) : Protocol :=
  { msgType := type, sequenceId := 0, content := content }

def heartBeat : Protocol := create .heartbeatPacket []

end Protocol

end AsyncRPC
