import AsyncRPC.Frame
import AsyncRPC.Lib.Interleaving
import AsyncRPC.Lib.Run

/-!
# RPCSession

Fibers that call `sendResponse` on one session, and the fiber at the peer that calls `recvRequest`
again and again. A step is one call of `send` or `recv`, with what the loops of `Stream` do around it:
how many bytes a call moves is for the system to say, and so is what the memory of a new array holds.
`CoMutex` is taken for granted: one fiber at a time is past `lock`.
-/

namespace AsyncRPC.RpcSession

open Blocks Word

variable {F : Type}

/-- Where a fiber is in `sendResponse`; `left` is that of `writeFixSize`. -/
inductive Sender
  | idle
  | encoded (ba : ByteArray)
  | writing (ba : ByteArray) (left : Nat)

/-- Where the peer is in `recvRequest`, `left` and `offset` being those of `readFixSize`. -/
inductive Receiver
  | idle
  | readingMeta (heap : Heap) (ba : ByteArray) (left : Nat)
  | readingContent (request : Frame) (buff : List UInt8) (offset left : Nat)

structure State (F : Type) where
  /-- The messages that a fiber still has to send. The first is the one it is sending. -/
  todo : F → List Frame
  sender : F → Sender
  mutex : Option F
  wire : List UInt8
  receiver : Receiver
  /-- What `recvRequest` has returned, `none` for null, oldest first. -/
  results : List (Option Frame)

def start (given : F → List Frame) : State F :=
  { todo := given
    sender := fun _ => .idle
    mutex := none
    wire := []
    receiver := .idle
    results := [] }

/-- `send` and `recv` move `k` bytes, or all there are if there are fewer. -/
inductive Label (F : Type)
  | encode (f : F) (heap : Heap)
  | lock (f : F)
  | send (f : F) (k : Nat)
  | unlock (f : F)
  | recvRequest (heap : Heap)
  | recv (k : Nat)
  | decode

/-- `SocketStream::write(ba, len)`: its result, the bytes that were sent, and the array. -/
def write (ba : ByteArray) (len k : Nat) : Except Fault (Nat × List UInt8 × ByteArray) := do
  let (_, iov) ← ba.getReadBuffers [] len
  let bytes := (ba.gather iov).take k
  let ret := bytes.length
  if ret > 0 then do
    let ba ← ba.setPosition (ba.position + ret)
    .ok (ret, bytes, ba)
  else .ok (ret, bytes, ba)

def read (heap : Heap) (ba : ByteArray) (len k : Nat) (wire : List UInt8) :
    Except Fault (Nat × ByteArray) := do
  let (_, iov, ba) ← ba.getWriteBuffers heap [] len
  let bytes := wire.take (min k (iov.map Iovec.len).sum)
  let ba := ba.fill iov bytes
  let ret := bytes.length
  if ret > 0 then do
    let ba ← ba.setPosition (ba.position + ret)
    .ok (ret, ba)
  else .ok (ret, ba)

namespace State

variable [DecidableEq F] (s : State F)

def returnSend (f : F) : State F :=
  { s with
    todo := Function.update s.todo f (s.todo f).tail
    sender := Function.update s.sender f .idle
    mutex := none }

def returnRecv (result : Option Frame) : State F :=
  { s with receiver := .idle, results := s.results ++ [result] }

/-- One round of the loop in `writeFixSize`. -/
def sendRound (f : F) (ba : ByteArray) (left k : Nat) : Except Fault (State F) := do
  let (l, bytes, ba) ← write ba left k
  let s := { s with wire := s.wire ++ bytes }
  if l ≤ 0 then .ok (s.returnSend f)
  else .ok { s with sender := Function.update s.sender f (.writing ba (subSize left l)) }

/-- One round of the loop in `readFixSize`, for either of the reads. -/
def recvRound (k : Nat) : Option (Except Fault (State F)) :=
  match s.receiver with
  | .idle => none
  | .readingMeta heap ba left =>
      if left > 0 then
        some do
          let (l, ba) ← read heap ba left k s.wire
          let s := { s with wire := s.wire.drop l }
          if l ≤ 0 then .ok (s.returnRecv none)
          else .ok { s with receiver := .readingMeta heap ba (subSize left l) }
      else none
  | .readingContent request buff offset left =>
      if left > 0 then
        let bytes := s.wire.take (min k left)
        let l := bytes.length
        let s := { s with wire := s.wire.drop l }
        if l ≤ 0 then some (.ok (s.returnRecv none))
        else
          some (.ok { s with
            receiver := .readingContent request (overwrite offset bytes buff) (addSize offset l)
              (subSize left l) })
      else none

/-- What `recvRequest` does when a `readFixSize` has got to its end. -/
def decode : Option (Except Fault (State F)) :=
  match s.receiver with
  | .idle => none
  | .readingMeta _ ba left =>
      if left > 0 then none
      else
        some do
          let ba ← ba.setPosition 0
          let (request, _) ← Frame.new.decodeMeta .little ba
          if request.magic ≠ Frame.protocolMagic then .ok (s.returnRecv none)
          else if request.contentLength.toNat = 0 then .ok (s.returnRecv (some request))
          else do
            let buff ← ByteArray.resize request.contentLength.toNat
            .ok { s with receiver := .readingContent request buff 0 request.contentLength.toNat }
  | .readingContent request buff _ left =>
      if left > 0 then none
      else if intOfSize request.contentLength.toNat ≤ 0 then some (.ok (s.returnRecv none))
      else some (.ok (s.returnRecv (some { request with content := buff })))

def exec : Label F → Option (Except Fault (State F))
  | .encode f heap =>
      match s.sender f, s.todo f with
      | .idle, m :: _ =>
          some do
            let ba ← m.encode .little heap
            .ok { s with sender := Function.update s.sender f (.encoded ba) }
      | _, _ => none
  | .lock f =>
      match s.sender f, s.mutex with
      | .encoded ba, none =>
          some (.ok { s with
            mutex := some f
            sender := Function.update s.sender f (.writing ba ba.size) })
      | _, _ => none
  | .send f k =>
      match s.sender f with
      -- the result is an `int`
      | .writing ba left =>
          if left > 0 ∧ 1 ≤ k ∧ k < 2 ^ 31 then some (s.sendRound f ba left k) else none
      | _ => none
  | .unlock f =>
      match s.sender f with
      | .writing _ left => if left > 0 then none else some (.ok (s.returnSend f))
      | _ => none
  | .recvRequest heap =>
      match s.receiver with
      | .idle =>
          some (.ok { s with
            receiver := .readingMeta heap (ByteArray.create heap 4096) Frame.baseLength })
      | _ => none
  -- `recv` waits until there is something
  | .recv k => if s.wire ≠ [] ∧ 1 ≤ k ∧ k < 2 ^ 31 then s.recvRound k else none
  | .decode => s.decode

def Step (s : State F) (l : Label F) (t : State F) : Prop := s.exec l = some (.ok t)

/-- Nothing is left to be done: no fiber can go on, and the peer is not about to. -/
def Quiescent : Prop := ∀ l, s.exec l = none

/-- What has been received is an interleaving of what was sent, and when nothing can go on, of all
that was to be sent; no step faults. -/
structure Transports (given : F → List Frame) (s : State F) : Prop where
  safe : ∀ l fault, s.exec l ≠ some (.error fault)
  ordered : ∃ received, s.results = received.map some ∧ Interleaving.MergesSome given received
  complete : s.Quiescent → ∃ received, s.results = received.map some ∧ Interleaving.Merges given received

end State

end AsyncRPC.RpcSession
