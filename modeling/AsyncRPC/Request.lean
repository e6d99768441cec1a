import AsyncRPC.RpcServer

/-!
# Requests of any content

How far the name and the arguments reach into the content of a request, as functions of its bytes
alone, and what the handler of a method call owes to a content whatever it is.
-/

namespace AsyncRPC

open ServiceRegistry

/-- Taking something off the front of some bytes. It fails as a reader does that comes to the end of the
nodes, or to the size of a string that is longer than a string can be. -/
abbrev Parser (α : Type) := StateT (List UInt8) (Except Fault) α

namespace Parser

/-- A varint of the width `w`, read in up to as many rounds. -/
def varint {w : Nat} : Nat → Nat → BitVec w → Parser (BitVec w)
  | 0, _, value => pure value
  | rounds + 1, i, value => fun bytes =>
      match bytes with
      | [] => .error .nullNode
      | b :: bytes =>
          let temp := b.toBitVec
          if temp < 0x80#8 then .ok (value ||| (temp.setWidth w <<< i), bytes)
          else varint rounds (i + 7) (value ||| ((temp &&& 0x7F#8).setWidth w <<< i)) bytes

def take (n : Nat) : Parser (List UInt8) := fun bytes =>
  if n ≤ bytes.length then .ok (bytes.take n, bytes.drop n) else .error .nullNode

def chars (n : Nat) : Parser (List UInt8) :=
  if n < 2 ^ 63 then take n else fun _ => .error .lengthError

def size : Parser (BitVec 64) := varint 10 0 0

def string : Parser (List UInt8) := do
  let len ← size
  chars len.toNat

def skipMany (skip : Parser Unit) : Nat → Parser Unit
  | 0 => pure ()
  | size + 1 => do
      skip
      skipMany skip size

end Parser

def Scalar.skip : Scalar → Parser Unit
  | .bool | .int8 | .uint8 => do
      let _ ← Parser.take 1
  | .int16 | .uint16 => do
      let _ ← Parser.take 2
  | .float => do
      let _ ← Parser.take 4
  | .double => do
      let _ ← Parser.take 8
  | .int32 | .uint32 => do
      let _ ← Parser.varint 5 0 (0 : BitVec 32)
  | .int64 | .uint64 => do
      let _ ← Parser.size
  | .string => do
      let _ ← Parser.string

/-- The bytes that decoding a value needs. -/
def Ty.skip : Ty → Parser Unit
  | .scalar s => s.skip
  | .pair first second => do
      first.skip
      second.skip
  | .tupleOne t => t.skip
  | .tupleSnoc init last => do
      init.skip
      last.skip
  | .coll _ t => do
      let size ← Parser.size
      Parser.skipMany t.skip size.toNat
  | .assoc _ key val => do
      let size ← Parser.size
      Parser.skipMany (do
        key.skip
        val.skip) size.toNat

/-- The nodes that a content is written into: the content and what is behind it. -/
def Serializer.memory (heap : Heap) (content : List UInt8) : List UInt8 :=
  ((FlatBuffer.create heap 4096).put heap content).data

namespace RpcServer

variable (env : Env)

/-- Reading from a content takes no byte from behind it. -/
def Stays {α : Type} (get : ByteArray → Except Fault (α × ByteArray)) (content : Bytes) : Prop :=
  ∀ ba y ba', Serializer.ofContent env.heap content = .ok ba → get ba = .ok (y, ba') →
    ba'.position ≤ content.length

/-- Whatever result a content is read into, its code is `code` then. -/
def Carries (ret : Ty) (content : Bytes) (code : RPCState) : Prop :=
  ∀ prior : Result ret, ∃ ba res ba', Serializer.ofContent env.heap content = .ok ba ∧
    prior.read env.host env.order ba = .ok (res, ba') ∧ res.code = code

namespace Server

variable {Conn : Type}

/-- What the handler of a method call owes to a request of any content. -/
structure Robust (s : Server Conn) (request : Protocol) : Prop where
  returns : ∃ r, s.handleMethodCall env request = .ok r
  name : Stays env (Scalar.string.read env.host) request.content
  args : ∀ funName args m, unpack env request.content = .ok (funName, args) →
    s.services funName = some m →
      Stays env (m.args.read env.host env.order m.args.defaultVal) args
  tooShort : ∀ funName args m fault, Parser.string request.content = .ok (funName, args) →
    s.services funName = some m → m.args.skip args = .error fault →
      ∃ response, s.handleMethodCall env request = .ok (response, []) ∧
        Carries env m.ret response.content .argsNotMatch

/-- A name that is all there, and if it is registered, then all of its arguments. -/
def WellFormed (s : Server Conn) (content : Bytes) : Prop :=
  ∃ funName args, Parser.string content = .ok (funName, args) ∧
    ∀ m, s.services funName = some m → ∃ rest, m.args.skip args = .ok ((), rest)

/-- What a handler reads leads it no further than to the end of the nodes, unless a string in the arguments
is too long before, which `proxy` catches. The name of a method has to be in the content itself. -/
def Legible (s : Server Conn) (request : Protocol) : Prop :=
  match request.msgType with
  | .rpcMethodRequest => ∃ funName args, Parser.string request.content = .ok (funName, args) ∧
      ∀ m fault, s.services funName = some m →
        m.args.skip (Serializer.memory env.heap args) = .error fault → thrown fault
  | .rpcSubscribeRequest =>
      ∃ key rest, Parser.string (Serializer.memory env.heap request.content) = .ok (key, rest)
  | _ => True

end Server

end RpcServer

end AsyncRPC
