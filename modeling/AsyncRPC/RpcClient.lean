import AsyncRPC.Lib.Run
import Mathlib.Data.Fintype.Basic
import Mathlib.Logic.Function.Basic

/-!
# RPCClient

The calls of one connected client and its receive fiber, one step per access to `sequence_id_`,
`response_handle_` and the channels. `is_closed_` is false throughout, and `mutex_` excludes: a fiber
that finds it taken has no step to offer. A call that times out may do so at any time.
-/

namespace AsyncRPC.RpcClient

/-- A response of the server, with the call whose request it answers. -/
structure Response (C : Type) where
  sequenceId : BitVec 32
  request : C
  deriving Repr, DecidableEq

/-- Where a call is. Its iterator `it` is named by the call that made the node: `emplace` leaves the
node of a key that is there. -/
inductive Pc (C : Type)
  | idle
  | taken (id : BitVec 32) (it : C)
  | sending (id : BitVec 32) (it : C)
  | waiting (id : BitVec 32) (it : C)
  /-- `waitFor` has returned, with nothing after a timeout. -/
  | leaving (id : BitVec 32) (it : C) (response : Option (Response C))
  | returned (response : Option (Response C))
  deriving Repr, DecidableEq

/-- The response to a request: the server gives at most one, with the request's sequence id. -/
inductive Reply
  | unsent
  | due (id : BitVec 32)
  /-- In `handleMethodResponse`, before the lookup. -/
  | inHand (id : BitVec 32)
  | handled
  deriving Repr, DecidableEq

inductive Receiver (C : Type)
  | idle
  /-- `sequence_id_` is assigned and `mutex_` is not yet taken. -/
  | assigned (response : Response C)
  /-- In `channel << response`, with `mutex_` taken; the channel is the one of call `c`. -/
  | pushing (c : C) (response : Response C)
  deriving Repr, DecidableEq

structure State (C : Type) where
  sequenceId : BitVec 32
  /-- `response_handle_`, where a node stands for the call whose `recv_channel` is in it. -/
  responseHandle : BitVec 32 → Option C
  mutex : Bool
  pc : C → Pc C
  recvChannel : C → List (Response C)
  reply : C → Reply
  receiver : Receiver C

/-- A client that has connected and has not been called; `connect` does not set `sequence_id_`. -/
structure Connected {C : Type} (s : State C) : Prop where
  responseHandle : ∀ id, s.responseHandle id = none
  mutex : s.mutex = false
  pc : ∀ c, s.pc c = .idle
  recvChannel : ∀ c, s.recvChannel c = []
  reply : ∀ c, s.reply c = .unsent
  receiver : s.receiver = .idle

inductive Label (C : Type)
  | emplace (c : C)
  | increment (c : C)
  | send (c : C)
  | pop (c : C)
  | timeout (c : C)
  | erase (c : C)
  | assign (c : C)
  | find
  | push
  deriving Repr, DecidableEq

def recvCapacity : Nat := 1

def Pc.key {C : Type} : Pc C → Option (BitVec 32)
  | .taken id _ | .sending id _ | .waiting id _ | .leaving id _ _ => some id
  | .idle | .returned _ => none

/-- The sequence id of a call whose request was sent and that has not returned. -/
def Pc.outstanding {C : Type} : Pc C → Option (BitVec 32)
  | .waiting id _ | .leaving id _ _ => some id
  | _ => none

/-- The sequence id under which a response is still to be looked up. -/
def Reply.expected : Reply → Option (BitVec 32)
  | .due id | .inHand id => some id
  | .unsent | .handled => none

namespace State

variable {C : Type} [DecidableEq C]

def goto (s : State C) (c : C) (pc : Pc C) : State C :=
  { s with pc := Function.update s.pc c pc }

/-- `id = sequence_id_; it = response_handle_.emplace(id, recv_channel).first;` -/
def emplace (s : State C) (c : C) : State C :=
  let it := (s.responseHandle s.sequenceId).getD c
  { s.goto c (.taken s.sequenceId it) with
    mutex := true
    responseHandle := Function.update s.responseHandle s.sequenceId (some it) }

/-- `sequence_id_ = response->getSequenceId();` -/
def assign (s : State C) (response : Response C) : State C :=
  { s with
    sequenceId := response.sequenceId
    reply := Function.update s.reply response.request (.inHand response.sequenceId)
    receiver := .assigned response }

/-- `it = response_handle_.find(sequence_id_);` for a response in hand. The key is what the member
holds by now. -/
def find (s : State C) (response : Response C) : State C :=
  let reply := Function.update s.reply response.request .handled
  match s.responseHandle s.sequenceId with
  | none => { s with reply := reply, receiver := .idle }
  | some c => { s with reply := reply, receiver := .pushing c response, mutex := true }

def step (s : State C) : Label C → Option (State C)
  | .emplace c => if s.pc c = .idle ∧ s.mutex = false then some (s.emplace c) else none
  | .increment c =>
      match s.pc c with
      | .taken id it =>
          some { s.goto c (.sending id it) with sequenceId := s.sequenceId + 1, mutex := false }
      | _ => none
  | .send c =>
      match s.pc c with
      | .sending id it =>
          some { s.goto c (.waiting id it) with reply := Function.update s.reply c (.due id) }
      | _ => none
  | .pop c =>
      match s.pc c, s.recvChannel c with
      | .waiting id it, response :: rest =>
          some { s.goto c (.leaving id it (some response)) with
                 recvChannel := Function.update s.recvChannel c rest }
      | _, _ => none
  | .timeout c =>
      match s.pc c with
      | .waiting id it => some (s.goto c (.leaving id it none))
      | _ => none
  | .erase c =>
      match s.pc c with
      | .leaving id it response =>
          -- an iterator whose node was erased may not be erased again
          if s.mutex = false ∧ s.responseHandle id = some it then
            some { s.goto c (.returned response) with
                   responseHandle := Function.update s.responseHandle id none }
          else none
      | _ => none
  | .assign c =>
      match s.receiver, s.reply c with
      | .idle, .due id => some (s.assign ⟨id, c⟩)
      | _, _ => none
  | .find =>
      match s.receiver with
      | .assigned response => if s.mutex = false then some (s.find response) else none
      | _ => none
  | .push =>
      match s.receiver with
      | .pushing c response =>
          if (s.recvChannel c).length < recvCapacity then
            some { s with
                   recvChannel := Function.update s.recvChannel c (s.recvChannel c ++ [response])
                   receiver := .idle
                   mutex := false }
          else none
      | _ => none

def Step (s : State C) (l : Label C) (t : State C) : Prop := s.step l = some t

/-- Responses find their way back: no two outstanding calls have the same sequence id, each has its
own channel in `response_handle_`, and a call that returned a response returned its own. -/
structure Correlated (s : State C) : Prop where
  distinct : ∀ c d id, (s.pc c).outstanding = some id → (s.pc d).outstanding = some id → c = d
  handle : ∀ c id, (s.pc c).outstanding = some id → s.responseHandle id = some c
  own : ∀ c response, s.pc c = .returned (some response) → response.request = c

/-- A call does not begin while `sequence_id_` is in use, by another call or by a response that is
still to be looked up, and a response does not arrive while a call is in its first critical
section. -/
def Careful (s : State C) : Label C → Prop
  | .emplace _ => ∀ d, (s.pc d).key ≠ some s.sequenceId ∧ (s.reply d).expected ≠ some s.sequenceId
  | .assign _ => s.mutex = false
  | _ => True

instance [Fintype C] (s : State C) : (l : Label C) → Decidable (s.Careful l)
  | .emplace _ => inferInstanceAs (Decidable (∀ d,
      (s.pc d).key ≠ some s.sequenceId ∧ (s.reply d).expected ≠ some s.sequenceId))
  | .assign _ => inferInstanceAs (Decidable (s.mutex = false))
  | .increment _ | .send _ | .pop _ | .timeout _ | .erase _ | .find | .push =>
      inferInstanceAs (Decidable True)

end State

end AsyncRPC.RpcClient
