import AsyncRPC.Socket

/-!
# TCPServer

A `TCPServer` and its `Socket` objects. A step is a method, a task that is executed, or a round of
`startAccept` up to the next point where it waits or another fiber can see it. An object goes when the
last pointer to it does, which `socks_`, the rounds of `startAccept` and the tasks for clients hold.
-/

namespace AsyncRPC.TcpServer

open FdManager (File Host)

/-- Where a `startAccept` is, with the socket it was given. -/
inductive Loop
  | submitted (i : Nat)
  /-- Before `while (!stop_)`. -/
  | top (i : Nat)
  | accepting (i : Nat)
  /-- A client was accepted and not yet submitted. -/
  | accepted (i client : Nat)
  | returned
  deriving Repr, DecidableEq

namespace Loop

def socket : Loop → Option Nat
  | .submitted i | .top i | .accepting i | .accepted i _ => some i
  | .returned => none

def client : Loop → Option Nat
  | .accepted _ client => some client
  | .submitted _ | .top _ | .accepting _ | .returned => none

def isAccepting : Loop → Bool
  | .accepting _ => true
  | .submitted _ | .top _ | .accepted _ _ | .returned => false

end Loop

structure State where
  net : Socket.State
  socks : List Nat
  stop : Bool
  /-- How many of the tasks that `stop` has submitted have not run. -/
  cleanups : Nat
  loops : List Loop
  /-- The clients for which `handleClient` is submitted. -/
  clients : List Nat
  handling : List Nat
  /-- All the clients that were submitted, oldest first. -/
  served : List Nat

/-- What the system does when `bind` tries an address. -/
structure Attempt where
  address : SockAddr
  file : Option (Int32 × File)
  bound : Bool
  sockname : Option SockAddr
  listens : Bool

/-- The hooks are on, and no system call fails. -/
def Attempt.succeeds (enabled : Bool) (a : Attempt) : Bool :=
  enabled && a.file.isSome && a.bound && a.listens

inductive Label
  | bind (attempts : List Attempt) (fail : List SockAddr) (enabled : Bool)
  | start
  | stop
  /-- The task of `stop`. -/
  | cleanup (enabled : Bool)
  /-- The task of `start` for a socket. -/
  | startAccept (k : Nat)
  | check (k : Nat) (enabled : Bool)
  | accepted (k : Nat) (enabled : Bool) (file : Option (Int32 × File)) (sockname peername : Option SockAddr)
  | submit (k : Nat)
  | handleClient (client : Nat)
  | handled (client : Nat) (enabled : Bool)
  | openFile (fd : Int32) (file : File) (isSocket : Bool)
  | closeFile (fd : Int32) (enabled : Bool)

/-- Whether the hooks are on, where it matters. -/
def Label.enabled : Label → Option Bool
  | .bind _ _ enabled | .cleanup enabled | .check _ enabled | .accepted _ enabled _ _ _
  | .handled _ enabled | .closeFile _ enabled => some enabled
  | .openFile _ _ isSocket => if isSocket then some true else none
  | .start | .stop | .startAccept _ | .submit _ | .handleClient _ => none

namespace State

variable (host : Host)

def call (s : State) (l : Socket.Label) : Option State :=
  (s.net.step host l).map fun net => { s with net := net }

def returned (s : State) : Bool := s.net.answers.getLast?.any Prod.snd

/-- A pointer to a listening socket is gone. -/
def release (s : State) (i : Nat) (enabled : Bool) : Option State :=
  if i ∈ s.socks ∨ s.loops.any (fun loop => loop.socket = some i) then some s
  else s.call host (.destroy i enabled)

def clear (s : State) (enabled : Bool) : Option State :=
  s.socks.foldlM (fun s i => s.release host i enabled) { s with socks := [] }

/-- A round of the loop in `bind`: the addresses that have failed, and the server. -/
def tryBind (enabled : Bool) (r : List SockAddr × State) (a : Attempt) :
    Option (List SockAddr × State) := do
  let i := r.2.net.made
  let s ← r.2.call host (.create a.address.family 1 0)
  let s ← s.call host (.bind i a.address enabled a.file a.bound a.sockname)
  if !s.returned then do
    let s ← s.call host (.destroy i enabled)
    some (r.1 ++ [a.address], s)
  else do
    let s ← s.call host (.listen i a.listens)
    if !s.returned then do
      let s ← s.call host (.destroy i enabled)
      some (r.1 ++ [a.address], s)
    else some (r.1, { s with socks := s.socks ++ [i] })

/-- `bind`, with what `fail` holds already. -/
def bind (s : State) (attempts : List Attempt) (fail : List SockAddr) (enabled : Bool) :
    Option (Bool × List SockAddr × State) := do
  let r ← attempts.foldlM (tryBind host enabled) (fail, s)
  if r.1.isEmpty then some (true, r)
  else do
    let s ← r.2.clear host enabled
    some (false, r.1, s)

def start (s : State) : State :=
  if !s.stop then s
  else { s with stop := false, loops := s.loops ++ s.socks.map .submitted }

def setStop (s : State) : State := if s.stop then s else { s with stop := true, cleanups := s.cleanups + 1 }

/-- The task of `stop`; `cancelAll` changes nothing here. -/
def cleanup (s : State) (enabled : Bool) : Option State := do
  let s ← s.socks.foldlM (fun s i => s.call host (.close i enabled))
    { s with cleanups := s.cleanups - 1 }
  s.clear host enabled

def setLoop (s : State) (k : Nat) (loop : Loop) : State := { s with loops := s.loops.set k loop }

/-- `while (!stop_)`, and the call of `accept`. -/
def check (s : State) (k i : Nat) (enabled : Bool) : Option State :=
  if s.stop then (s.setLoop k .returned).release host i enabled
  else (s.call host (.accept i enabled)).map fun s => s.setLoop k (.accepting i)

def accepted (s : State) (k i : Nat) (enabled : Bool) (file : Option (Int32 × File))
    (sockname peername : Option SockAddr) : Option State :=
  (s.call host (.accepted i enabled file sockname peername)).map fun t =>
    t.setLoop k (if t.returned then .accepted i s.net.made else .top i)

def step (s : State) : Label → Option State
  | .bind attempts fail enabled => (s.bind host attempts fail enabled).map fun done => done.2.2
  | .start => some s.start
  | .stop => some s.setStop
  | .cleanup enabled => if 0 < s.cleanups then s.cleanup host enabled else none
  | .startAccept k =>
      match s.loops[k]? with
      | some (.submitted i) => some (s.setLoop k (.top i))
      | _ => none
  | .check k enabled =>
      match s.loops[k]? with
      | some (.top i) => s.check host k i enabled
      | _ => none
  | .accepted k enabled file sockname peername =>
      match s.loops[k]? with
      | some (.accepting i) => s.accepted host k i enabled file sockname peername
      | _ => none
  | .submit k =>
      match s.loops[k]? with
      | some (.accepted i client) =>
          some
            { s.setLoop k (.top i) with
              clients := s.clients ++ [client]
              served := s.served ++ [client] }
      | _ => none
  | .handleClient client =>
      if client ∈ s.clients then
        some { s with clients := s.clients.erase client, handling := s.handling ++ [client] }
      else none
  | .handled client enabled =>
      if client ∈ s.handling then
        { s with handling := s.handling.erase client }.call host (.destroy client enabled)
      else none
  | .openFile fd file isSocket => s.call host (.openFile fd file isSocket)
  | .closeFile fd enabled => s.call host (.closeFile fd enabled)

def Step (s : State) (l : Label) (t : State) : Prop := s.step host l = some t

/-- Whenever `bind` makes a socket, the kernel gives out a descriptor that is not open then. -/
def Attempts (enabled : Bool) (s : State) : List Attempt → Prop
  | [] => True
  | a :: attempts => s.net.Fresh a.file ∧
      ∀ r, tryBind host enabled ([], s) a = some r → Attempts enabled r.2 attempts

def Possible (s : State) : Label → Prop
  | .bind attempts _ enabled => s.Attempts host enabled attempts
  | .accepted _ _ file _ _ => s.net.Fresh file
  | .openFile fd _ _ => 0 ≤ fd ∧ s.net.world.kernel fd = none
  | .closeFile fd _ => fd ∉ s.net.taken
  | _ => True

end State

structure New (s : State) : Prop where
  net : Socket.New s.net
  socks : s.socks = []
  stop : s.stop = true
  cleanups : s.cleanups = 0
  loops : s.loops = []
  clients : s.clients = []
  handling : s.handling = []
  served : s.served = []

def Reached (host : Host) (enabled : Bool) (s : State) : Prop :=
  Transition.Reachable (Transition.Guarded
    (fun s l => s.Possible host l ∧ l.enabled ≠ some (!enabled)) (State.Step host)) New s

namespace State

def Listens (s : State) (i : Nat) : Prop := i ∈ s.socks ∨ ∃ loop ∈ s.loops, loop.socket = some i

def inHand (s : State) : List Nat := s.loops.filterMap Loop.client

/-- The clients on their way. -/
def stages (s : State) : List Nat := s.inHand ++ s.clients ++ s.handling

/-- Every object that lives is held for one purpose, a client in one place, and every client is
submitted once. -/
structure Accounts (s : State) : Prop where
  alive : ∀ i, (s.net.sockets i).isSome = true ↔ s.Listens i ∨ i ∈ s.stages
  apart : ∀ i ∈ s.stages, ¬ s.Listens i
  stages : s.stages.Nodup
  served : s.served.Nodup
  submitted : ∀ i ∈ s.clients ++ s.handling, i ∈ s.served
  waiting : ∀ i ∈ s.inHand, i ∉ s.served
  owned : ∀ fd ∈ s.net.taken, ∃ i x, s.net.sockets i = some x ∧ x.fd = fd

/-- What `bind` leaves, where it has returned `ok`. The object of the `k`-th address has been told `false`,
by its `bind` or its `listen`, just if the address is among those that have failed; where none has, each
object has a descriptor that no other object has. -/
structure Binds (enabled : Bool) (s : State) (attempts : List Attempt) (fail : List SockAddr) (ok : Bool)
    (fail' : List SockAddr) (t : State) : Prop where
  failed : fail' = fail ++ (attempts.filter fun a => !a.succeeds enabled).map Attempt.address
  returned : ∃ answers, t.net.answers = s.net.answers ++ answers ∧
    ∀ k a, attempts[k]? = some a → ((s.net.made + k, false) ∈ answers ↔ a.succeeds enabled = false)
  answer : ok = true ↔ fail' = []
  bound : ok = true → ∃ new, t.socks = s.socks ++ new ∧ new.Nodup ∧
    List.Forall₂ (fun i a => ∃ x, t.net.sockets i = some x ∧ x.family = a.address.family ∧
      x.fd ∈ t.net.taken ∧ ∀ j y, t.net.sockets j = some y → y.fd = x.fd → j = i) new attempts
  unbound : ok = false → t.socks = [] ∧ ∀ i, (t.net.sockets i).isSome = true ↔
    (∃ loop ∈ s.loops, loop.socket = some i) ∨ i ∈ s.stages

def passed (s : State) : Nat := s.served.length + s.inHand.length

/-- `bind` is called while no `startAccept` runs, and nobody connects to a socket that is closed. -/
def Orderly (s : State) : Label → Prop
  | .bind _ _ _ => ∀ loop ∈ s.loops, loop = .returned
  | .accepted k _ file _ _ => file ≠ none → ∀ i, s.loops[k]? = some (.accepting i) →
      ∃ x, s.net.sockets i = some x ∧ x.fd ≠ -1
  | _ => True

/-- No client has come since, and no socket listens. -/
structure Silent (s t : State) : Prop where
  passed : t.passed = s.passed
  socks : t.socks = []
  closed : ∀ i, t.Listens i → ∀ x, t.net.sockets i = some x → x.fd = -1

end State

end AsyncRPC.TcpServer
