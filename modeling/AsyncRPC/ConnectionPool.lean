import AsyncRPC.Lib.Counter
import AsyncRPC.ServiceRegistry

/-!
# RPCConnectionPool

What a pool knows of the addresses of services: `discover` asks the registry and subscribes, and the
callback it subscribes with follows the notices. The other end is `handleServiceDiscover` and
`publish` of the registry; messages arrive as they were sent, in order.
-/

namespace AsyncRPC.ConnectionPool

open Emplace ServiceRegistry

structure Pool where
  /-- `subscribe_handle_`, each callback by the service name it was made for. -/
  subscribeHandle : Bytes → Option Bytes
  addressMap : Bytes → Option (List Bytes)
  sent : List Protocol

namespace Pool

-- `unset i` is what `code_` of the `i`-th `Result` that `discover` declares holds before anything is
-- read into it
variable (env : Env) (unset : Nat → RPCState)

def subscribe (p : Pool) (key name : Bytes) : Except Fault Pool := do
  let content ← Serializer.contentOf env.heap (Scalar.string.write env.host env.heap key)
  .ok { p with
    subscribeHandle := Function.update p.subscribeHandle key (some name)
    sent := p.sent ++ [Protocol.create .rpcSubscribeRequest content] }

/-- The loop over the results: the addresses, or nothing where a result says so. -/
def results : Nat → Nat → List Bytes → ByteArray → Except Fault (Option (List Bytes))
  | 0, _, result, _ => .ok (some result)
  | cnt + 1, i, result, ba => do
      let res : Result (.scalar .string) := { code := unset i, msg := [], val := [] }
      let (res, ba) ← res.read env.host env.order ba
      let val : Bytes := res.val
      if res.code = .noMethod then .ok none else results cnt (i + 1) (result ++ [val]) ba

def discover (p : Pool) (name : Bytes) (response : Option Protocol) :
    Except Fault (List Bytes × Pool) := do
  let p := { p with sent := p.sent ++ [Protocol.create .rpcServiceDiscover name] }
  match response with
  | none => .ok ([], p)
  | some response => do
      let ba ← Serializer.ofContent env.heap response.content
      let (_, ba) ← Scalar.string.read env.host ba
      let (cnt, ba) ← Scalar.uint32.read env.host ba
      match ← results env unset (BitVec.toNat cnt) 0 [] ba with
      | none => .ok ([], p)
      | some result =>
          if (p.subscribeHandle (rpcServiceSubscribe ++ name)).isSome then .ok (result, p)
          else do
            let p ← p.subscribe env (rpcServiceSubscribe ++ name) name
            .ok (result, p)

/-- The same loop where the `Result` objects may hold anything, and the serializer after it. -/
def decodeResults (prior : Nat → Result (.scalar .string)) : Nat → Nat → List Bytes → ByteArray →
    Except Fault (List Bytes × ByteArray)
  | 0, _, result, ba => .ok (result, ba)
  | cnt + 1, i, result, ba => do
      let (res, ba) ← (prior i).read env.host env.order ba
      let val : Bytes := res.val
      if res.code = .noMethod then .ok ([], ba)
      else decodeResults prior cnt (i + 1) (result ++ [val]) ba

def decode (prior : Nat → Result (.scalar .string)) (response : Protocol) :
    Except Fault (List Bytes × ByteArray) := do
  let ba ← Serializer.ofContent env.heap response.content
  let (_, ba) ← Scalar.string.read env.host ba
  let (cnt, ba) ← Scalar.uint32.read env.host ba
  decodeResults env prior (BitVec.toNat cnt) 0 [] ba

def refresh (p : Pool) (name : Bytes) (response : Option Protocol) : Except Fault Pool := do
  let (result, p) ← p.discover env unset name response
  .ok { p with addressMap := Function.update p.addressMap name (some result) }

def callback (p : Pool) (name : Bytes) (ba : ByteArray) : Except Fault Pool := do
  let (serviceLaunch, ba) ← Scalar.bool.read env.host ba
  let (addr, _) ← Scalar.string.read env.host ba
  let addr : Bytes := addr
  if !serviceLaunch then
    .ok { p with
      addressMap := Function.update p.addressMap name (some ((p.addressMap name).getD [] ++ [addr])) }
  else
    match p.addressMap name with
    | none => .ok p
    | some addrs =>
        .ok { p with addressMap := Function.update p.addressMap name (some (addrs.erase addr)) }

def handlePublish (p : Pool) (response : Protocol) : Except Fault Pool := do
  let ba ← Serializer.ofContent env.heap response.content
  let (key, ba) ← Scalar.string.read env.host ba
  match p.subscribeHandle key with
  | none => .ok p
  | some name => p.callback env name ba

def notice (name : Bytes) (p : Pool) (data : Bool × Bytes) : Except Fault Pool := do
  let content ← Serializer.contentOf env.heap (putNotice env (rpcServiceSubscribe ++ name) data)
  let p ← p.handlePublish env (Protocol.create .rpcPublishRequest content)
  .ok { p with sent := p.sent ++ [Protocol.create .rpcPublishResponse []] }

end Pool

/-! ### The two ends -/

section Ends

variable {Conn : Type} [DecidableEq Conn]

def addresses (r : Registry Conn) (name : Bytes) : List Bytes :=
  (r.service.filter fun e => e.name = name).map Entry.address

def changed (addrs : List Bytes) (data : Bool × Bytes) : List Bytes :=
  if data.1 then addrs ++ [data.2] else addrs.erase data.2

def Legal (addrs : List Bytes) : List (Bool × Bytes) → Prop
  | [] => True
  | data :: rest => (data.1 = false → data.2 ∈ addrs) ∧ Legal (changed addrs data) rest

instance decidableLegal : (addrs : List Bytes) → (notices : List (Bool × Bytes)) →
    Decidable (Legal addrs notices)
  | _, [] => inferInstanceAs (Decidable True)
  | addrs, data :: rest =>
      have := decidableLegal (changed addrs data) rest
      inferInstanceAs (Decidable ((data.1 = false → data.2 ∈ addrs) ∧ Legal (changed addrs data) rest))

/-- The pool decodes just the registered addresses, and just the content of the response. -/
def Decodes (env : Env) (prior : Nat → Result (.scalar .string)) (addrs : List Bytes)
    (response : Protocol) : Prop :=
  ∃ ba, Pool.decode env prior response = .ok (addrs, ba) ∧ ba.position = response.content.length

/-- The string that decoding finds behind a response that holds one result without a value. -/
def beyond (env : Env) (response : Protocol) : Except Fault Bytes := do
  let ba ← Serializer.ofContent env.heap response.content
  let (_, ba) ← Scalar.string.read env.host ba
  let (_, ba) ← Scalar.uint32.read env.host ba
  let (_, ba) ← Scalar.string.read env.host ba
  let (val, _) ← Scalar.string.read env.host ba
  .ok val

/-- What the pool takes the addresses to be, for `addrs` registered: all of them as far as their
number fits into 32 bits, or one string found by chance if there are none; and none at all if some
result holds `RPC_NO_METHOD` before it is read. -/
def listed (env : Env) (unset : Nat → RPCState) (addrs : List Bytes) (response : Protocol) :
    List Bytes :=
  let found := if addrs = [] then (beyond env response).toOption.toList
    else addrs.take (addrs.length % 2 ^ 32)
  if (List.range found.length).any fun i => unset i = .noMethod then [] else found

/-- The pool's list for a service is what is registered, as a multiset. -/
def Agrees (p : Pool) (name : Bytes) (addrs : List Bytes) : Prop :=
  ((p.addressMap name).getD []).Perm addrs

/-- For every address: the larger of how often it was listed and the most its joins were ahead of its
quits is how often it was registered, and twice what the joins are ahead in the end. -/
def Balanced (listed addrs : List Bytes) (notices : List (Bool × Bytes)) : Prop :=
  ∀ a, max (listed.count a : Int) (Counter.peak (Counter.flagsOf a notices))
    = addrs.count a + 2 * Counter.net (Counter.flagsOf a notices)

end Ends

end AsyncRPC.ConnectionPool
