import AsyncRPC.RpcClient
import Mathlib.Data.List.Sort

/-!
# RPCClient::close

The calls of one client from their check of the connection on, its receive fiber, and `close`, which
goes through `response_handle_` with `mutex_` taken. Whoever calls `close`, only the first gets past
`is_closed_`. A channel may hold the null pointer that `close` puts there; `response_handle_` is in the
order of its keys.
-/

namespace AsyncRPC.RpcClientClose

open RpcClient (Response Reply Receiver recvCapacity)

/-- Where a call is; `it` is as in `RpcClient.Pc`. What `waitFor` got is nothing after a timeout, and
null from `close`. -/
inductive Pc (C : Type)
  | idle
  /-- `session_->isConnected()` was true; `mutex_` is not taken yet. -/
  | checked
  | taken (id : BitVec 32) (it : C)
  | sending (id : BitVec 32) (it : C)
  | waiting (id : BitVec 32) (it : C)
  | leaving (id : BitVec 32) (it : C) (response : Option (Option (Response C)))
  | returned (response : Option (Option (Response C)))
  deriving Repr, DecidableEq

/-- The call will wait for its channel, or does. -/
def Pc.waits {C : Type} : Pc C → Bool
  | .checked | .taken _ _ | .sending _ _ | .waiting _ _ => true
  | .idle | .leaving _ _ _ | .returned _ => false

structure State (C : Type) where
  sequenceId : BitVec 32
  /-- `response_handle_`, where a node stands for the call whose `recv_channel` is in it. -/
  responseHandle : List (BitVec 32 × C)
  mutex : Bool
  isClosed : Bool
  /-- `session_->isConnected()`, until `close` gets to its end. -/
  connected : Bool
  pc : C → Pc C
  recvChannel : C → List (Option (Response C))
  reply : C → Reply
  receiver : Receiver C
  /-- In the loop of `close`, the calls whose channels are still to come. -/
  closer : Option (List C)

/-- As `RpcClient.Connected`. -/
structure Connected {C : Type} (s : State C) : Prop where
  responseHandle : s.responseHandle = []
  mutex : s.mutex = false
  isClosed : s.isClosed = false
  connected : s.connected = true
  pc : ∀ c, s.pc c = .idle
  recvChannel : ∀ c, s.recvChannel c = []
  reply : ∀ c, s.reply c = .unsent
  receiver : s.receiver = .idle
  closer : s.closer = none

inductive Label (C : Type)
  | check (c : C)
  | emplace (c : C)
  | increment (c : C)
  | send (c : C)
  | pop (c : C)
  | timeout (c : C)
  | erase (c : C)
  | assign (c : C)
  | find
  | push
  /-- `close`, up to the loop. -/
  | close
  /-- One round of the loop: `it.second << nullptr;` -/
  | notify
  | finish
  deriving Repr, DecidableEq

namespace State

variable {C : Type} [DecidableEq C]

def goto (s : State C) (c : C) (pc : Pc C) : State C :=
  { s with pc := Function.update s.pc c pc }

/-- `id = sequence_id_; it = response_handle_.emplace(id, recv_channel).first;` -/
def emplace (s : State C) (c : C) : State C :=
  match s.responseHandle.lookup s.sequenceId with
  | some it => { s.goto c (.taken s.sequenceId it) with mutex := true }
  | none =>
      { s.goto c (.taken s.sequenceId c) with
        mutex := true
        responseHandle := s.responseHandle.orderedInsert (fun a b => a.1 ≤ b.1) (s.sequenceId, c) }

/-- `it = response_handle_.find(sequence_id_);` for a response in hand. -/
def find (s : State C) (response : Response C) : State C :=
  let reply := Function.update s.reply response.request .handled
  match s.responseHandle.lookup s.sequenceId with
  | none => { s with reply := reply, receiver := .idle }
  | some c => { s with reply := reply, receiver := .pushing c response, mutex := true }

/-- A value goes into the channel of a call, once there is room. -/
def give (s : State C) (c : C) (value : Option (Response C)) : Option (State C) :=
  if (s.recvChannel c).length < recvCapacity then
    some { s with recvChannel := Function.update s.recvChannel c (s.recvChannel c ++ [value]) }
  else none

def step (s : State C) : Label C → Option (State C)
  | .check c =>
      match s.pc c with
      -- without a connection the result is the one of a null response
      | .idle => some (s.goto c (if s.connected then .checked else .returned (some none)))
      | _ => none
  | .emplace c => if s.pc c = .checked ∧ s.mutex = false then some (s.emplace c) else none
  | .increment c =>
      match s.pc c with
      | .taken id it =>
          some { s.goto c (.sending id it) with sequenceId := s.sequenceId + 1, mutex := false }
      | _ => none
  | .send c =>
      match s.pc c with
      | .sending id it =>
          -- a closed `channel_` takes nothing
          let reply := if s.isClosed then s.reply else Function.update s.reply c (.due id)
          some { s.goto c (.waiting id it) with reply := reply }
      | _ => none
  | .pop c =>
      match s.pc c, s.recvChannel c with
      | .waiting id it, value :: rest =>
          some { s.goto c (.leaving id it (some value)) with
                 recvChannel := Function.update s.recvChannel c rest }
      | _, _ => none
  | .timeout c =>
      match s.pc c with
      | .waiting id it => some (s.goto c (.leaving id it none))
      | _ => none
  | .erase c =>
      match s.pc c with
      | .leaving id it response =>
          if s.mutex then none
          else if s.isClosed then some (s.goto c (.returned response))
          -- an iterator whose node was erased may not be erased again
          else if (id, it) ∈ s.responseHandle then
            some { s.goto c (.returned response) with
                   responseHandle := s.responseHandle.erase (id, it) }
          else none
      | _ => none
  | .assign c =>
      match s.receiver, s.reply c with
      | .idle, .due id =>
          if s.connected then
            some { s with
              sequenceId := id
              reply := Function.update s.reply c (.inHand id)
              receiver := .assigned ⟨id, c⟩ }
          else none
      | _, _ => none
  | .find =>
      match s.receiver with
      | .assigned response => if s.mutex = false then some (s.find response) else none
      | _ => none
  | .push =>
      match s.receiver with
      | .pushing c response =>
          (s.give c (some response)).map fun s => { s with receiver := .idle, mutex := false }
      | _ => none
  | .close =>
      if s.mutex = false ∧ s.isClosed = false then
        some { s with
          mutex := true
          isClosed := true
          closer := some (s.responseHandle.map Prod.snd) }
      else none
  | .notify =>
      match s.closer with
      | some (c :: rest) => (s.give c none).map fun s => { s with closer := some rest }
      | _ => none
  | .finish =>
      match s.closer with
      | some [] =>
          some { s with responseHandle := [], connected := false, mutex := false, closer := none }
      | _ => none

def Step (s : State C) (l : Label C) (t : State C) : Prop := s.step l = some t

/-- After `close`, `response_handle_` is empty and every call that waits or will wait has a value. -/
structure Released (s : State C) : Prop where
  responseHandle : s.responseHandle = []
  value : ∀ c, (s.pc c).waits = true → s.recvChannel c ≠ []

/-- Between its check of the connection and `mutex_` no call is overtaken by the end of `close`, and
none takes a sequence id that is in `response_handle_`. -/
def Timely (s : State C) : Label C → Prop
  | .finish => ∀ c, s.pc c ≠ .checked
  | .emplace _ => s.responseHandle.lookup s.sequenceId = none
  | _ => True

instance [Fintype C] (s : State C) : (l : Label C) → Decidable (s.Timely l)
  | .finish => inferInstanceAs (Decidable (∀ c, s.pc c ≠ .checked))
  | .emplace _ => inferInstanceAs (Decidable (s.responseHandle.lookup s.sequenceId = none))
  | .check _ | .increment _ | .send _ | .pop _ | .timeout _ | .erase _ | .assign _ | .find | .push
  | .close | .notify => inferInstanceAs (Decidable True)

end State

end AsyncRPC.RpcClientClose
