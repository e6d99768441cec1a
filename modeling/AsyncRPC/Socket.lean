import AsyncRPC.Hook

/-!
# Socket

Any number of `Socket` objects in a process, and the descriptors that they take from the kernel. A step
is a method of one object, except that `connect` and `accept` are two, since they wait in between. What
the kernel answers comes with the step, and whether the hooks are on, as it may differ from thread to
thread.

`setOption` has no effect on anything here, and `close` not on the events that `cancelAllEvent` takes
back.
-/

namespace AsyncRPC

open FdManager (File Host Ref)
open Hook (World)

namespace Hook.World

variable (host : Host)

def closed (w : World) (fd : Int32) : World := { w with kernel := Function.update w.kernel fd none }

def close (enabled : Bool) (w : World) (fd : Int32) : Except FdManager.Fault World :=
  if !enabled then .ok (w.closed fd)
  else do
    let found ← w.getFdContext host fd false
    let w := found.2
    match found.1 with
    | none => .ok (w.closed fd)
    | some _ => do
        let manager ← w.manager.delFdContext fd
        .ok ({ w with manager := manager }.closed fd)

end Hook.World

/-- What `getsockname` and `getpeername` write and `bind` and `connect` read. -/
structure SockAddr where
  family : Nat
  bytes : List UInt8
  deriving Repr, DecidableEq

structure Socket where
  fd : Int32
  family : Nat
  type : Nat
  protocol : Nat
  isConnected : Bool
  localAddress : Option SockAddr
  remoteAddress : Option SockAddr
  deriving Repr, DecidableEq

namespace Socket

def new (family type protocol : Nat) : Socket :=
  { fd := -1
    family := family
    type := type
    protocol := protocol
    isConnected := false
    localAddress := none
    remoteAddress := none }

/-- An address that could not be had, an `UnknownAddress`, is not kept. -/
def getLocalAddress (s : Socket) (sockname : Option SockAddr) : Socket :=
  match s.localAddress with
  | some _ => s
  | none => { s with localAddress := sockname }

def getRemoteAddress (s : Socket) (peername : Option SockAddr) : Socket :=
  match s.remoteAddress with
  | some _ => s
  | none => { s with remoteAddress := peername }

/-- What `connect` and `initSocketByFd` end with. -/
def connected (s : Socket) (sockname peername : Option SockAddr) : Socket :=
  ({ s with isConnected := true }.getLocalAddress sockname).getRemoteAddress peername

structure State where
  world : World
  sockets : Nat → Option Socket
  made : Nat
  connecting : List Nat
  /-- The objects that are in `::accept`, as often as fibers are. -/
  accepting : List Nat
  /-- The descriptors that the objects have taken from the kernel and that are open. -/
  taken : List Int32
  /-- What `bind`, `listen` and `connect` have returned, and whether `accept` returned an object. -/
  answers : List (Nat × Bool)

inductive Label
  | create (family type protocol : Nat)
  | bind (i : Nat) (address : SockAddr) (enabled : Bool) (file : Option (Int32 × File)) (bound : Bool)
      (sockname : Option SockAddr)
  /-- `connect`, up to the call of `::connect`. -/
  | connect (i : Nat) (address : SockAddr) (enabled : Bool) (file : Option (Int32 × File))
  /-- `::connect` has returned. -/
  | connected (i : Nat) (enabled : Bool) (done : Bool) (sockname peername : Option SockAddr)
  | listen (i : Nat) (listens : Bool)
  /-- `accept`, up to the wait in `::accept`. -/
  | accept (i : Nat) (enabled : Bool)
  /-- `::accept` has returned. -/
  | accepted (i : Nat) (enabled : Bool) (file : Option (Int32 × File))
      (sockname peername : Option SockAddr)
  | close (i : Nat) (enabled : Bool)
  /-- The last pointer to the object is gone. -/
  | destroy (i : Nat) (enabled : Bool)
  /-- Somebody else opens a file, or makes a socket with the hooks on. -/
  | openFile (fd : Int32) (file : File) (isSocket : Bool)
  /-- Somebody else closes a descriptor. -/
  | closeFile (fd : Int32) (enabled : Bool)

/-- Whether the hooks are on, where it matters. -/
def Label.enabled : Label → Option Bool
  | .bind _ _ enabled _ _ _ | .connect _ _ enabled _ | .connected _ enabled _ _ _ | .accept _ enabled
  | .accepted _ enabled _ _ _ | .close _ enabled | .destroy _ enabled | .closeFile _ enabled => some enabled
  | .openFile _ _ isSocket => if isSocket then some true else none
  | .create _ _ _ | .listen _ _ => none

def Label.Prepares (i : Nat) : Label → Prop
  | .bind j _ _ _ _ _ | .connect j _ _ _ => j = i
  | _ => False

namespace State

variable (host : Host)

def put (n : State) (i : Nat) (s : Socket) : State :=
  { n with sockets := Function.update n.sockets i (some s) }

def answer (n : State) (i : Nat) (result : Bool) : State :=
  { n with answers := n.answers ++ [(i, result)] }

/-- `isVaild`; a lookup changes nothing. -/
def isVaild (n : State) (s : Socket) : Except FdManager.Fault Bool :=
  if s.fd = -1 then .ok false
  else do
    let found ← n.world.getFdContext host s.fd false
    .ok (found.2.hooked found.1).isSome

def newSocket (n : State) (s : Socket) (enabled : Bool) (file : Option (Int32 × File)) :
    Except FdManager.Fault (Socket × State) := do
  let opened ← n.world.socket host enabled file
  .ok ({ s with fd := opened.1 },
    { n with world := opened.2, taken := n.taken ++ (file.map Prod.fst).toList })

/-- What `bind` and `connect` begin with: whether the object is valid in the end. -/
def prepare (n : State) (s : Socket) (enabled : Bool) (file : Option (Int32 × File)) :
    Except FdManager.Fault (Bool × Socket × State) := do
  let valid ← n.isVaild host s
  if valid then .ok (true, s, n)
  else do
    let made ← n.newSocket host s enabled file
    let valid ← made.2.isVaild host made.1
    .ok (valid, made)

def bind (n : State) (i : Nat) (s : Socket) (address : SockAddr) (enabled : Bool)
    (file : Option (Int32 × File)) (bound : Bool) (sockname : Option SockAddr) :
    Except FdManager.Fault State := do
  let ready ← n.prepare host s enabled file
  let s := ready.2.1
  let n := ready.2.2
  if !ready.1 then .ok ((n.put i s).answer i false)
  else if address.family ≠ s.family then .ok ((n.put i s).answer i false)
  else if !bound then .ok ((n.put i s).answer i false)
  else .ok ((n.put i (s.getLocalAddress sockname)).answer i true)

def connect (n : State) (i : Nat) (s : Socket) (address : SockAddr) (enabled : Bool)
    (file : Option (Int32 × File)) : Except FdManager.Fault State := do
  let ready ← n.prepare host s enabled file
  let s := ready.2.1
  let n := ready.2.2
  if !ready.1 then .ok ((n.put i s).answer i false)
  else if address.family ≠ s.family then .ok ((n.put i s).answer i false)
  else .ok { n.put i s with connecting := n.connecting ++ [i] }

/-- `Socket::close`; it always returns true. -/
def close (n : State) (s : Socket) (enabled : Bool) : Except FdManager.Fault (Socket × State) :=
  if !s.isConnected && s.fd = -1 then .ok (s, n)
  else
    let s := { s with isConnected := false }
    if s.fd ≠ -1 then do
      let world ← n.world.close host enabled s.fd
      .ok ({ s with fd := -1 }, { n with world := world, taken := n.taken.erase s.fd })
    else .ok (s, n)

def finishConnect (n : State) (i : Nat) (s : Socket) (enabled done : Bool)
    (sockname peername : Option SockAddr) : Except FdManager.Fault State := do
  let n := { n with connecting := n.connecting.erase i }
  if !done then do
    let closed ← n.close host s enabled
    .ok ((closed.2.put i closed.1).answer i false)
  else .ok ((n.put i (s.connected sockname peername)).answer i true)

def listen (n : State) (i : Nat) (s : Socket) (listens : Bool) : Except FdManager.Fault State := do
  let valid ← n.isVaild host s
  if !valid then .ok (n.answer i false) else .ok (n.answer i listens)

/-- `initSocketByFd` of a new object; `none` where it returns false. -/
def initSocketByFd (n : State) (s : Socket) (fd : Int32) (sockname peername : Option SockAddr) :
    Except FdManager.Fault (Option Socket) := do
  let found ← n.world.getFdContext host fd false
  if (found.2.hooked found.1).isSome then .ok (some ({ s with fd := fd }.connected sockname peername))
  else .ok none

/-- `accept`, up to the wait: `do_io` looks the descriptor up. -/
def accept (n : State) (i : Nat) (s : Socket) (enabled : Bool) : Except FdManager.Fault State :=
  let n := { n with accepting := n.accepting ++ [i] }
  if enabled then do
    let found ← n.world.getFdContext host s.fd false
    .ok { n with world := found.2 }
  else .ok n

/-- The rest of `accept`. A new object that is not initialised does not know the descriptor and goes. -/
def finishAccept (n : State) (i : Nat) (s : Socket) (enabled : Bool) (file : Option (Int32 × File))
    (sockname peername : Option SockAddr) : Except FdManager.Fault State := do
  let opened ← n.world.accept host enabled file
  let n :=
    { n with
      world := opened.2
      accepting := n.accepting.erase i
      taken := n.taken ++ (file.map Prod.fst).toList }
  if opened.1 < 0 then .ok (n.answer i false)
  else do
    let made ← n.initSocketByFd host (new s.family s.type s.protocol) opened.1 sockname peername
    match made with
    | none => .ok ({ n with made := n.made + 1 }.answer i false)
    | some client => .ok ({ n.put n.made client with made := n.made + 1 }.answer i true)

def openFile (n : State) (fd : Int32) (file : File) (isSocket : Bool) : Except FdManager.Fault State := do
  if isSocket then do
    let opened ← n.world.socket host true (some (fd, file))
    .ok { n with world := opened.2 }
  else .ok { n with world := n.world.opened fd file }

def closeFile (n : State) (fd : Int32) (enabled : Bool) : Except FdManager.Fault State := do
  let world ← n.world.close host enabled fd
  .ok { n with world := world }

def on (n : State) (i : Nat) (method : Socket → Except FdManager.Fault State) : Option State :=
  match n.sockets i with
  | none => none
  | some s => (method s).toOption

/-- An index out of bounds ends the process: there is no step. -/
def step (n : State) : Label → Option State
  | .create family type protocol =>
      some { n.put n.made (new family type protocol) with made := n.made + 1 }
  | .bind i address enabled file bound sockname =>
      n.on i fun s => n.bind host i s address enabled file bound sockname
  | .connect i address enabled file => n.on i fun s => n.connect host i s address enabled file
  | .connected i enabled done sockname peername =>
      if i ∈ n.connecting then n.on i fun s => n.finishConnect host i s enabled done sockname peername
      else none
  | .listen i listens => n.on i fun s => n.listen host i s listens
  | .accept i enabled => n.on i fun s => n.accept host i s enabled
  | .accepted i enabled file sockname peername =>
      if i ∈ n.accepting then n.on i fun s => n.finishAccept host i s enabled file sockname peername
      else none
  | .close i enabled => n.on i fun s => (n.close host s enabled).map fun closed => closed.2.put i closed.1
  | .destroy i enabled =>
      n.on i fun s => (n.close host s enabled).map fun closed =>
        { closed.2 with sockets := Function.update closed.2.sockets i none }
  | .openFile fd file isSocket => (n.openFile host fd file isSocket).toOption
  | .closeFile fd enabled => (n.closeFile host fd enabled).toOption

def Step (n : State) (l : Label) (t : State) : Prop := n.step host l = some t

def Fresh (n : State) (file : Option (Int32 × File)) : Prop :=
  ∀ fd made, file = some (fd, made) → 0 ≤ fd ∧ n.world.kernel fd = none ∧ made.sock = true

/-- `socket` and `accept` give sockets. While one fiber is in the `connect` of an object, no other
uses it; no object goes while a fiber is in its `accept`; and nobody closes a descriptor of an object
but the object. -/
def Possible (n : State) : Label → Prop
  | .bind i _ _ file _ _ | .connect i _ _ file => i ∉ n.connecting ∧ n.Fresh file
  | .accepted _ _ file _ _ => n.Fresh file
  | .listen i _ | .accept i _ | .close i _ => i ∉ n.connecting
  | .destroy i _ => i ∉ n.connecting ∧ i ∉ n.accepting
  | .openFile fd _ _ => 0 ≤ fd ∧ n.world.kernel fd = none
  | .closeFile fd _ => fd ∉ n.taken
  | .create _ _ _ | .connected _ _ _ _ _ => True

end State

structure New (n : State) : Prop where
  manager : n.world.manager = .init
  sockets : ∀ i, n.sockets i = none
  made : n.made = 0
  connecting : n.connecting = []
  accepting : n.accepting = []
  taken : n.taken = []
  answers : n.answers = []

def Reached (host : Host) (enabled : Bool) (n : State) : Prop :=
  Transition.Reachable
    (Transition.Guarded (fun n l => n.Possible l ∧ l.enabled ≠ some (!enabled)) (State.Step host)) New n

/-- The addresses that an object has been told are those it goes on to tell. -/
structure Keeps (s s' : Socket) : Prop where
  localAddress : ∀ address, s.localAddress = some address → s'.localAddress = some address
  remoteAddress : ∀ address, s.remoteAddress = some address → s'.remoteAddress = some address

namespace State

/-- Every descriptor that was taken is open and in one object, which is valid; and nothing else is. -/
structure Owns (host : Host) (n : State) : Prop where
  nodup : n.taken.Nodup
  opened : ∀ fd ∈ n.taken, (n.world.kernel fd).isSome = true
  held : ∀ fd, fd ∈ n.taken ↔ fd ≠ -1 ∧ ∃ i s, n.sockets i = some s ∧ s.fd = fd
  single : ∀ i j s t, n.sockets i = some s → n.sockets j = some t → s.fd = t.fd → s.fd ≠ -1 → i = j
  valid : ∀ i s, n.sockets i = some s → n.isVaild host s = .ok (s.fd ≠ -1)
  connected : ∀ i s, n.sockets i = some s → s.isConnected = true → s.fd ≠ -1

/-- No method of an object has done what it is for. -/
structure Idle (host : Host) (n : State) : Prop where
  answers : ∀ i result, (i, result) ∈ n.answers → result = false
  invalid : ∀ i s, n.sockets i = some s → n.isVaild host s = .ok false
  unconnected : ∀ i s, n.sockets i = some s → s.isConnected = false

/-- A descriptor is open, and no object knows it. -/
structure Lost (n : State) (fd : Int32) : Prop where
  taken : fd ∈ n.taken
  opened : (n.world.kernel fd).isSome = true
  unknown : ∀ i s, n.sockets i = some s → s.fd ≠ fd

end State

end Socket

end AsyncRPC
