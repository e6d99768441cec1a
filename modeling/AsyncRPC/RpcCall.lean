import AsyncRPC.RpcServer

/-!
# A call from end to end

The request that `RPCClient::call` builds and what it makes of the response, with the handler of the
server between them. The types that the client calls with are those of the function.
-/

namespace AsyncRPC

/-- How many types a type is made of. -/
def Ty.nodes : Ty → Nat
  | .scalar _ => 1
  | .pair first second => first.nodes + second.nodes + 1
  | .tupleOne t => t.nodes + 1
  | .tupleSnoc init last => init.nodes + last.nodes + 1
  | .coll _ t => t.nodes + 1
  | .assoc _ key val => key.nodes + val.nodes + 1

namespace RpcCall

open ServiceRegistry RpcServer

variable (env : Env)

def request (name : Bytes) (t : Ty) (args : t.Val) (id : BitVec 32) : Except Fault Protocol := do
  let content ← Serializer.contentOf env.heap fun ba => do
    let ba ← Scalar.string.write env.host env.heap name ba
    t.write env.host env.heap args ba
  .ok { Protocol.create .rpcMethodRequest content with sequenceId := id }

/-- The result of a call whose response has come; `code` is what `code_` of its `Result` holds before.
What of `val_` was read before an exception is left out. -/
def decode (t : Ty) (code : RPCState) (response : Protocol) : Except Fault (Result t) :=
  if response.content.isEmpty then
    .ok { code := .noMethod, msg := ascii "method not find", val := t.defaultVal }
  else do
    let val : Result t := { code := code, msg := [], val := t.defaultVal }
    let seria ← Serializer.ofContent env.heap response.content
    match val.read env.host env.order seria with
    | .ok (val, _) => .ok val
    | .error fault =>
        if thrown fault then
          .ok { code := .argsNotMatch, msg := ascii "return value not match", val := t.defaultVal }
        else .error fault

/-! ### What a call has to do -/

variable {Conn : Type}

/-- The function is invoked once, on arguments equal to those of the call, and the value it returns
arrives. -/
def Delivers (s : Server Conn) (name : Bytes) (m : Method) (args : m.args.Val) : Prop :=
  ∀ id code req, request env name m.args args id = .ok req →
    ∃ response received val,
      s.handleMethodCall env req = .ok (response, [⟨name, m.args, received⟩]) ∧
      decode env m.ret code response = .ok val ∧ m.args.Eqv args received ∧
      m.ret.Eqv (m.run received) val.val ∧ response.sequenceId = req.sequenceId ∧
      response.content ≠ []

/-- No function is invoked, and the call ends with `RPC_NO_METHOD`. -/
def Refuses (s : Server Conn) (name : Bytes) (t ret : Ty) (args : t.Val) : Prop :=
  ∀ id code req, request env name t args id = .ok req →
    ∃ response val,
      s.handleMethodCall env req = .ok (response, []) ∧ decode env ret code response = .ok val ∧
      val.code = .noMethod ∧ response.sequenceId = req.sequenceId ∧ response.content = []

/-- Every call with such arguments and such a result, whatever is registered. -/
def EndToEnd (Conn : Type) (t ret : Ty) : Prop :=
  ∀ (s : Server Conn) (name : Bytes) (args : t.Val), (Ty.scalar .string).Valid name → t.Valid args →
    (∀ run, s.services name = some ⟨t, ret, run⟩ → Method.Returns env ⟨t, ret, run⟩ →
      Delivers env s name ⟨t, ret, run⟩ args) ∧
    (s.services name = none → Refuses env s name t ret args)

end RpcCall

end AsyncRPC
