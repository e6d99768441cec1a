import AsyncRPC.ByteArrayCodec
import AsyncRPC.Protocol

/-!
# Frames

A `Protocol` object with the fields of its header, of which `Protocol` leaves out those that the
handlers never look at, and how it is taken to bytes and back.
-/

namespace AsyncRPC

def ByteArray.writeStringF32 (host : ByteOrder) (heap : Heap) (value : List UInt8) (ba : ByteArray) :
    Except Fault ByteArray := do
  let ba ← ba.writeFuint32 host heap (BitVec.ofNat 32 value.length)
  ba.write heap value

def ByteArray.readStringF32 (host : ByteOrder) (ba : ByteArray) :
    Except Fault (List UInt8 × ByteArray) := do
  let (len, ba) ← ba.readFuint32 host
  let value ← resize len.toNat
  ba.read value.length

def MsgType.toNat : MsgType → Nat
  | .heartbeatPacket => 0
  | .rpcRequest => 1
  | .rpcResponse => 2
  | .rpcMethodRequest => 3
  | .rpcMethodResponse => 4
  | .rpcServiceDiscover => 5
  | .rpcServiceDiscoverResponse => 6
  | .rpcServiceRegister => 7
  | .rpcServiceRegisterResponse => 8
  | .rpcSubscribeRequest => 9
  | .rpcSubscribeResponse => 10
  | .rpcPublishRequest => 11
  | .rpcPublishResponse => 12
  | .rpcProvider => 13
  | .rpcConsumer => 14
  | .unnamed n => 15 + n.val

structure Frame where
  magic : BitVec 8
  version : BitVec 8
  msgType : BitVec 8
  sequenceId : BitVec 32
  contentLength : BitVec 32
  content : List UInt8
  deriving Repr, DecidableEq

namespace Frame

def protocolMagic : BitVec 8 := 0xaa#8

def protocolVersion : BitVec 8 := 0x01#8

def baseLength : Nat := 11

def new : Frame :=
  { magic := protocolMagic
    version := protocolVersion
    msgType := 0#8
    sequenceId := 0#32
    contentLength := 0#32
    content := [] }

variable (host : ByteOrder) (heap : Heap)

def encode (m : Frame) : Except Fault ByteArray := do
  let bt := ByteArray.create heap 4096
  let bt ← bt.writeFuint8 host heap m.magic
  let bt ← bt.writeFuint8 host heap m.version
  let bt ← bt.writeFuint8 host heap m.msgType
  let bt ← bt.writeFuint32 host heap m.sequenceId
  let bt ← bt.writeStringF32 host heap m.content
  bt.setPosition 0

def decodeMeta (m : Frame) (bt : ByteArray) : Except Fault (Frame × ByteArray) := do
  let (magic, bt) ← bt.readFuint8 host
  let (version, bt) ← bt.readFuint8 host
  let (msgType, bt) ← bt.readFuint8 host
  let (sequenceId, bt) ← bt.readFuint32 host
  let (contentLength, bt) ← bt.readFuint32 host
  .ok ({ m with
    magic := magic
    version := version
    msgType := msgType
    sequenceId := sequenceId
    contentLength := contentLength }, bt)

/-- `Protocol::decode`; the length of the content comes from the content. -/
def decode (m : Frame) (bt : ByteArray) : Except Fault (Frame × ByteArray) := do
  let (magic, bt) ← bt.readFuint8 host
  let (version, bt) ← bt.readFuint8 host
  let (msgType, bt) ← bt.readFuint8 host
  let (sequenceId, bt) ← bt.readFuint32 host
  let (content, bt) ← bt.readStringF32 host
  .ok ({ m with
    magic := magic
    version := version
    msgType := msgType
    sequenceId := sequenceId
    content := content
    contentLength := BitVec.ofNat 32 content.length }, bt)

/-- What `Protocol::Create` makes of a content that a session can carry: `recvRequest` takes the length
for an `int`. -/
structure Sendable (m : Frame) : Prop where
  magic : m.magic = protocolMagic
  contentLength : m.contentLength.toNat = m.content.length
  content : m.content.length < 2 ^ 31

/-! ### From one host to another -/

/-- The fields of a header are those that were encoded, the length being that of the content. -/
structure Agrees (m received : Frame) : Prop where
  magic : received.magic = m.magic
  version : received.version = m.version
  msgType : received.msgType = m.msgType
  sequenceId : received.sequenceId = m.sequenceId
  contentLength : received.contentLength.toNat = m.content.length

/-- The bytes that `encode` gives on a host `enc`, put into any array on a host `dec`, are decoded
there to the fields that were encoded, by either of the decoders. -/
def Recovers (enc dec : ByteOrder) (m : Frame) : Prop :=
  ∀ (heap heap' : Heap) (base : Nat) (request : Frame), 0 < base →
    ∃ bt bytes received,
      m.encode enc heap = .ok bt ∧ bt.toString = .ok bytes ∧
      ((ByteArray.create heap' base).write heap' bytes >>= fun ba => ba.setPosition 0) =
        .ok received ∧
      (∃ m' rest, request.decode dec received = .ok (m', rest) ∧ m.Agrees m') ∧
      ∃ m' rest, request.decodeMeta dec received = .ok (m', rest) ∧ m.Agrees m'

/-- The encoding host is little-endian, or the bytes of the sequence id and of the length read the
same from both ends. -/
def Portable (enc : ByteOrder) (m : Frame) : Prop :=
  enc = .little ∨ (Radix.byteSwap 4 m.sequenceId.toNat = m.sequenceId.toNat ∧
    Radix.byteSwap 4 m.content.length = m.content.length)

end Frame

def Protocol.frame (p : Protocol) : Frame :=
  { Frame.new with
    msgType := BitVec.ofNat 8 p.msgType.toNat
    content := p.content
    sequenceId := p.sequenceId
    contentLength := BitVec.ofNat 32 p.content.length }

end AsyncRPC
