import AsyncRPC.RpcSession

/-!
# One call of `recvRequest`

`RPCSession::recvRequest` from its start to its return, over a stream that gives each call of `recv`
some of its bytes. A call that finds no answer yet waits for it, and so does `recvRequest`.
-/

namespace AsyncRPC.RpcSession

open Blocks Word

/-- The bytes of the stream, and how many of them each call of `recv` gives at most. -/
structure Net where
  wire : List UInt8
  frags : List Nat
  deriving Repr, DecidableEq

/-- Why `recvRequest` has not returned. -/
inductive Stop
  /-- The last call of `recv` has not been answered. -/
  | waiting
  | fault (fault : Fault)
  deriving Repr, DecidableEq

def faulting {α : Type} : Except Fault α → Except Stop α := Except.mapError Stop.fault

/-- `readFixSize(ByteArray::ptr ba, size_t len)`, with `left` bytes to go. -/
def readFixSizeByteArray (heap : Heap) (len : Nat) (frags : List Nat) (left : Nat) (ba : ByteArray)
    (wire : List UInt8) : Except Stop (Int × ByteArray × Net) :=
  if left > 0 then
    match frags with
    | [] => .error .waiting
    | k :: frags => do
        let (l, ba) ← faulting (read heap ba left k wire)
        let wire := wire.drop l
        if l ≤ 0 then .ok (intOfSize l, ba, ⟨wire, frags⟩)
        else readFixSizeByteArray heap len frags (subSize left l) ba wire
  else .ok (intOfSize len, ba, ⟨wire, frags⟩)

/-- `readFixSize(void *buff, size_t len)`, with `left` bytes to go from `offset` on. -/
def readFixSizeBuff (len : Nat) (frags : List Nat) (left offset : Nat) (buff wire : List UInt8) :
    Except Stop (Int × List UInt8 × Net) :=
  if left > 0 then
    match frags with
    | [] => .error .waiting
    | k :: frags =>
        let bytes := wire.take (min k left)
        let l := bytes.length
        let wire := wire.drop l
        if l ≤ 0 then .ok (intOfSize l, buff, ⟨wire, frags⟩)
        else
          readFixSizeBuff len frags (subSize left l) (addSize offset l) (overwrite offset bytes buff)
            wire
  else .ok (intOfSize len, buff, ⟨wire, frags⟩)

/-- `recvRequest`, `none` for null. -/
def recvRequest (host : ByteOrder) (heap : Heap) (net : Net) : Except Stop (Option Frame × Net) := do
  let ba := ByteArray.create heap 4096
  let (ret, ba, net) ←
    readFixSizeByteArray heap Frame.baseLength net.frags Frame.baseLength ba net.wire
  if ret ≤ 0 then .ok (none, net)
  else do
    let ba ← faulting (ba.setPosition 0)
    let (request, _) ← faulting (Frame.new.decodeMeta host ba)
    if request.magic ≠ Frame.protocolMagic then .ok (none, net)
    else if request.contentLength.toNat = 0 then .ok (some request, net)
    else do
      let length := request.contentLength.toNat
      let buff ← faulting (ByteArray.resize length)
      let (ret, buff, net) ← readFixSizeBuff length net.frags length 0 buff net.wire
      if ret ≤ 0 then .ok (none, net)
      else .ok (some { request with content := buff }, net)

end AsyncRPC.RpcSession
