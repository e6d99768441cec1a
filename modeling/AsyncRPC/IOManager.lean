import AsyncRPC.ByteArrayCodec
import AsyncRPC.Lib.Run
import AsyncRPC.Lib.Word
import Mathlib.Logic.Function.Basic

/-!
# IOManager

The event table of `IOManager` over an epoll instance. What `epoll_ctl` answers is an argument of each
operation, and of each round of the dispatch loop; where it answers from its interest map that is
`epollCtl`. `epoll_data` is a union of a pointer and an `int`, so it is kept as its 64 bits; where the
contexts lie in memory is a parameter. `scheduler`, `fiber` and `callback` of an `EventContext` are set
and reset together, so it is the task it will submit, if any.
-/

namespace AsyncRPC.IOManager

open Word

/-- A descriptor: an `int` that is not negative. -/
abbrev Fd := Fin (2 ^ 31)

instance neZeroFd : NeZero (2 ^ 31) := ⟨by decide⟩

inductive Event
  | read
  | write
  deriving Repr, DecidableEq

/-- A set of events, as the bits of `FdContext::events`. -/
@[ext]
structure Events where
  read : Bool
  write : Bool
  deriving Repr, DecidableEq

namespace Events

def none : Events := ⟨false, false⟩

def single : Event → Events
  | .read => ⟨true, false⟩
  | .write => ⟨false, true⟩

def has (events : Events) : Event → Bool
  | .read => events.read
  | .write => events.write

def union (a b : Events) : Events := ⟨a.read || b.read, a.write || b.write⟩

def inter (a b : Events) : Events := ⟨a.read && b.read, a.write && b.write⟩

def diff (a b : Events) : Events := ⟨a.read && !b.read, a.write && !b.write⟩

end Events

structure EpollFlags where
  epollin : Bool
  epollout : Bool
  epollerr : Bool
  epollhup : Bool
  epollet : Bool
  deriving Repr, DecidableEq

def Events.edge (events : Events) : EpollFlags :=
  { epollin := events.read, epollout := events.write, epollerr := false, epollhup := false,
    epollet := true }

structure EpollEvent where
  events : EpollFlags
  data : BitVec 64
  deriving Repr, DecidableEq

section Union

/-- `data.fd` of the union. -/
def dataFd (host : ByteOrder) (data : BitVec 64) : BitVec 32 :=
  match host with
  | .little => data.extractLsb' 0 32
  | .big => data.extractLsb' 32 32

/-- `data.fd = fd`, which leaves the other half of the union. -/
def setDataFd (host : ByteOrder) (data : BitVec 64) (fd : BitVec 32) : BitVec 64 :=
  match host with
  | .little => data.extractLsb' 32 32 ++ fd
  | .big => fd ++ data.extractLsb' 0 32

end Union

/-- Where the contexts lie in memory, what the pipe's descriptor is, and that no context can be taken
for the pipe. -/
structure Layout where
  host : ByteOrder
  pipefd : BitVec 32
  addr : Fd → BitVec 64
  resolve : BitVec 64 → Option Fd
  resolve_eq_some : ∀ p fd, resolve p = some fd ↔ addr fd = p
  dataFd_addr : ∀ fd, dataFd host (addr fd) ≠ pipefd

def Layout.pipeData (layout : Layout) : BitVec 64 := setDataFd layout.host 0 layout.pipefd

inductive CtlOp
  | add
  | mod
  | del
  deriving Repr, DecidableEq

abbrev Interest := Fd → Option EpollEvent

/-- How the kernel answers: the interest map afterwards, `none` where `epoll_ctl` fails. -/
abbrev EpollCtl := Interest → CtlOp → Fd → EpollEvent → Option Interest

def epollCtl : EpollCtl := fun interest op fd event =>
  match op, interest fd with
  | .add, none => some (Function.update interest fd (some event))
  | .mod, some _ => some (Function.update interest fd (some event))
  | .del, some _ => some (Function.update interest fd none)
  | _, _ => none

/-- What an event context submits: its fiber or its callback. -/
inductive Task
  | fiber (id : Nat)
  | callback (id : Nat)
  deriving Repr, DecidableEq

structure FdContext where
  events : Events
  read : Option Task
  write : Option Task
  deriving Repr, DecidableEq

def FdContext.fresh : FdContext := { events := .none, read := none, write := none }

def FdContext.getEventContext (context : FdContext) : Event → Option Task
  | .read => context.read
  | .write => context.write

def FdContext.setEventContext (context : FdContext) (task : Option Task) : Event → FdContext
  | .read => { context with read := task }
  | .write => { context with write := task }

def FdContext.taskOf (context : FdContext) (fd : Fd) (event : Event) : List (Fd × Event × Task) :=
  (context.getEventContext event).toList.map fun task => (fd, event, task)

/-- The tasks that wait for the given events, in the order in which they are triggered. -/
def FdContext.tasks (context : FdContext) (fd : Fd) (events : Events) : List (Fd × Event × Task) :=
  (if events.read then context.taskOf fd .read else []) ++
    (if events.write then context.taskOf fd .write else [])

/-- What stops the process: an assertion, `fdContext_` indexed past its end, a pointer that does not
point to a context, a context without a scheduler. -/
inductive Crash
  | assertion
  | outOfBounds
  | wildPointer
  | nullScheduler
  deriving Repr, DecidableEq

structure Manager where
  size : Nat
  context : Fd → FdContext
  interest : Interest
  pendingEventCount : Nat
  /-- The tasks submitted, oldest first, with the event each was registered for. -/
  submitted : List (Fd × Event × Task)

namespace Manager

variable (layout : Layout)

def init : Manager :=
  { size := 64
    context := fun _ => FdContext.fresh
    interest := fun _ => none
    pendingEventCount := 0
    submitted := [] }

def setContext (m : Manager) (fd : Fd) (context : FdContext) : Manager :=
  { m with context := Function.update m.context fd context }

def contextResize (m : Manager) (size : Nat) : Manager :=
  { m with
    size := size
    context := fun i => if m.size ≤ i.val ∧ i.val < size then FdContext.fresh else m.context i }

/-- `FdContext::triggerEvent` of the context of `fd`. -/
def triggerEvent (m : Manager) (fd : Fd) (event : Event) : Except Crash Manager :=
  let context := m.context fd
  if context.events.has event then
    match context.getEventContext event with
    | none => .error .nullScheduler
    | some task =>
        let context := { context with events := context.events.diff (.single event) }
        .ok { m.setContext fd (context.setEventContext none event) with
          submitted := m.submitted ++ [(fd, event, task)] }
  else .error .assertion

def triggerPending (m : Manager) (fd : Fd) (event : Event) : Except Crash Manager := do
  let m ← m.triggerEvent fd event
  .ok { m with pendingEventCount := subSize m.pendingEventCount 1 }

def triggerIf (m : Manager) (cond : Bool) (fd : Fd) (event : Event) : Except Crash Manager :=
  if cond then m.triggerPending fd event else .ok m

def grown (m : Manager) (fd : Fd) : Manager :=
  if intOfSize m.size > (fd.val : Int) then m else m.contextResize (fd.val * 3 / 2)

/-- What `addEvent` passes to `epoll_ctl`: `data.fd = fd` is overwritten by `data.ptr = context`. -/
def addRequest (m : Manager) (fd : Fd) (event : Event) : CtlOp × EpollEvent :=
  let events := (m.context fd).events
  (if events ≠ .none then .mod else .add,
    { events := ((Events.single event).union events).edge, data := layout.addr fd })

/-- `addEvent` from the look at `fdContext_[fd]` on. -/
def registerEvent (ctl : EpollCtl) (m : Manager) (fd : Fd) (event : Event) (task : Task) :
    Except Crash (Bool × Manager) :=
  if m.size ≤ fd.val then .error .outOfBounds
  else
    let context := m.context fd
    if context.events.has event then .error .assertion
    else
      let request := m.addRequest layout fd event
      -- `context->events = new_event` comes before the call
      let context := { context with events := (Events.single event).union context.events }
      match ctl m.interest request.1 fd request.2 with
      | none => .ok (false, m.setContext fd context)
      | some interest =>
          if (context.getEventContext event).isSome then .error .assertion
          else
            .ok (true,
              { m.setContext fd (context.setEventContext (some task) event) with
                interest := interest
                pendingEventCount := addSize m.pendingEventCount 1 })

def addEvent (ctl : EpollCtl) (m : Manager) (fd : Fd) (event : Event) (task : Task) :
    Except Crash (Bool × Manager) :=
  (m.grown fd).registerEvent layout ctl fd event task

def delEvent (ctl : EpollCtl) (m : Manager) (fd : Fd) (event : Event) :
    Except Crash (Bool × Manager) :=
  if intOfSize m.size ≤ (fd.val : Int) then .ok (false, m)
  else
    let context := m.context fd
    if !context.events.has event then .ok (false, m)
    else
      let newEvent := context.events.diff (.single event)
      let op := if context.events ≠ .none then CtlOp.mod else CtlOp.del
      match ctl m.interest op fd { events := newEvent.edge, data := layout.addr fd } with
      | none => .ok (false, m)
      | some interest =>
          let context := { context with events := newEvent }
          .ok (true,
            { m.setContext fd (context.setEventContext none event) with
              interest := interest
              pendingEventCount := subSize m.pendingEventCount 1 })

def cancelEvent (ctl : EpollCtl) (m : Manager) (fd : Fd) (event : Event) :
    Except Crash (Bool × Manager) :=
  if intOfSize m.size ≤ (fd.val : Int) then .ok (false, m)
  else
    let context := m.context fd
    if !context.events.has event then .ok (false, m)
    else
      let newEvent := context.events.diff (.single event)
      let op := if context.events ≠ .none then CtlOp.mod else CtlOp.del
      -- here `data.fd = fd` comes last
      let data := setDataFd layout.host (layout.addr fd) (BitVec.ofNat 32 fd.val)
      match ctl m.interest op fd { events := newEvent.edge, data := data } with
      | none => .ok (false, m)
      | some interest => do
          let m ← ({ m with interest := interest }).triggerPending fd event
          .ok (true, m)

def cancelAllEvent (ctl : EpollCtl) (m : Manager) (fd : Fd) : Except Crash (Bool × Manager) :=
  if intOfSize m.size ≤ (fd.val : Int) then .ok (false, m)
  else
    let context := m.context fd
    if context.events = .none then .ok (false, m)
    else
      let flags : EpollFlags := ⟨false, false, false, false, false⟩
      match ctl m.interest .mod fd { events := flags, data := layout.addr fd } with
      | none => .ok (false, m)
      | some interest => do
          let m := { m with interest := interest }
          let m ← m.triggerIf ((m.context fd).events.has .read) fd .read
          let m ← m.triggerIf ((m.context fd).events.has .write) fd .write
          if (m.context fd).events = .none then .ok (true, m) else .error .assertion

/-- What an entry of a batch is about. The code does not see this, only the user data. -/
inductive Source
  | pipe
  | socket (fd : Fd)
  deriving Repr, DecidableEq

structure Entry where
  source : Source
  event : EpollEvent
  deriving Repr, DecidableEq

/-- The events an entry stands for, against a context that waits for `waiting`: an error or a hangup
stands for all of them. -/
def Entry.realEvent (e : Entry) (waiting : Events) : Events :=
  let flags := e.event.events
  let reported : Events := ⟨flags.epollin, flags.epollout⟩
  if flags.epollerr || flags.epollhup then reported.union waiting else reported

/-- The end of a round: `READ`, then `WRITE`. -/
def triggerReal (m : Manager) (fd : Fd) (real : Events) : Except Crash Manager := do
  let m ← m.triggerIf (real.has .read) fd .read
  m.triggerIf (real.has .write) fd .write

/-- One round of the dispatch loop of `Wait`; `first` is `events->data.ptr`, the user data of the
first entry of the batch. -/
def dispatchEntry (first : BitVec 64) (m : Manager) (e : Entry × EpollCtl) : Except Crash Manager :=
  if dataFd layout.host e.1.event.data = layout.pipefd then .ok m
  else
    match layout.resolve first with
    | none => .error .wildPointer
    | some fd =>
        let waiting := (m.context fd).events
        let real := e.1.realEvent waiting
        if real.inter waiting = .none then .ok m
        else
          let left := waiting.diff real
          let op := if left ≠ .none then CtlOp.mod else CtlOp.del
          match e.2 m.interest op fd { e.1.event with events := left.edge } with
          | none => .ok m
          | some interest => ({ m with interest := interest }).triggerReal fd real

def dispatch (m : Manager) (batch : List (Entry × EpollCtl)) : Except Crash Manager :=
  match batch with
  | [] => .ok m
  | e :: _ => batch.foldlM (dispatchEntry layout e.1.event.data) m

/-- The entry, for whose round the kernel answers from its interest map. -/
def Entry.exact (e : Entry) : Entry × EpollCtl := (e, epollCtl)

/-! ### Runs of the table -/

inductive Op
  | addEvent (fd : Fd) (event : Event) (task : Task)
  | delEvent (fd : Fd) (event : Event)
  | cancelEvent (fd : Fd) (event : Event)
  | cancelAllEvent (fd : Fd)
  | dispatch (batch : List Entry)

def perform (m : Manager) : Op → Except Crash Manager
  | .addEvent fd event task => Prod.snd <$> m.addEvent layout epollCtl fd event task
  | .delEvent fd event => Prod.snd <$> m.delEvent layout epollCtl fd event
  | .cancelEvent fd event => Prod.snd <$> m.cancelEvent layout epollCtl fd event
  | .cancelAllEvent fd => Prod.snd <$> m.cancelAllEvent layout epollCtl fd
  | .dispatch batch => m.dispatch layout (batch.map Entry.exact)

/-- What `epoll_wait` can return: each descriptor at most once, with the user data it was registered
with, and at least one event, of those asked for or an error or a hangup. -/
structure Returned (m : Manager) (batch : List Entry) : Prop where
  pipe : ∀ e ∈ batch, e.source = .pipe → e.event.data = layout.pipeData
  socket : ∀ e ∈ batch, ∀ fd, e.source = .socket fd → ∃ want, m.interest fd = some want ∧
    e.event.data = want.data ∧
    (e.event.events.epollin = true → want.events.epollin = true) ∧
    (e.event.events.epollout = true → want.events.epollout = true) ∧
    (e.event.events.epollin || e.event.events.epollout || e.event.events.epollerr ||
      e.event.events.epollhup) = true
  distinct : (batch.map Entry.source).Nodup

/-- The uses the table is meant for: an event is added only while it is not registered. -/
def Possible (m : Manager) : Op → Prop
  | .addEvent fd event _ => (m.context fd).events.has event = false
  | .dispatch batch => m.Returned layout batch
  | _ => True

/-- Just the descriptors whose contexts in the table have registered events are in the interest map,
with these events and their own context. -/
def Law (m : Manager) : Prop :=
  ∀ fd, m.interest fd
    = if fd.val < m.size ∧ (m.context fd).events ≠ .none then
        some { events := (m.context fd).events.edge, data := layout.addr fd }
      else none

/-- `left` is what the context of the first entry still waits for. The first later socket entry that
reports any of it reports just that. -/
def Spares (left : Events) : List Entry → Prop
  | [] => True
  | e :: rest =>
      match e.source with
      | .pipe => Spares left rest
      | .socket _ =>
          if (e.realEvent left).inter left = .none then Spares left rest else e.realEvent left = left

/-- No socket entry, or a socket entry first and later ones that spare its context. -/
def Orderly (m : Manager) : List Entry → Prop
  | [] => True
  | e :: rest =>
      match e.source with
      | .pipe => ∀ e' ∈ rest, e'.source = .pipe
      | .socket fd =>
          let waiting := (m.context fd).events
          Spares (waiting.diff (e.realEvent waiting)) rest

/-- `(int)fdContext_.size()` is greater than the descriptor, or `fd * 1.5` contexts are enough for it
and for every descriptor that waits for something. -/
def Fits (m : Manager) (fd : Fd) : Prop :=
  intOfSize m.size ≤ (fd.val : Int) →
    fd.val < fd.val * 3 / 2 ∧ ∀ fd' : Fd, (m.context fd').events ≠ .none → fd'.val < fd.val * 3 / 2

def Keeps (m : Manager) : Op → Prop
  | .addEvent fd _ _ => m.Fits fd
  | .delEvent fd event => (fd.val : Int) < intOfSize m.size → (m.context fd).events ≠ .single event
  | .cancelEvent fd event =>
      (fd.val : Int) < intOfSize m.size → (m.context fd).events.has event = true →
        (m.context fd).events ≠ .single event ∧
          dataFd layout.host (layout.addr fd) = BitVec.ofNat 32 fd.val
  | .cancelAllEvent fd => (fd.val : Int) < intOfSize m.size → (m.context fd).events = .none
  | .dispatch batch => m.Orderly batch

def Succeeds (m : Manager) : Op → Prop
  | .addEvent fd event task => ∃ m', m.addEvent layout epollCtl fd event task = .ok (true, m')
  | _ => True

/-! ### One batch -/

/-- The tasks an entry is to have submitted: those waiting in its own context for what it reports. -/
def due (m : Manager) (e : Entry) : List (Fd × Event × Task) :=
  match e.source with
  | .pipe => []
  | .socket fd =>
      let context := m.context fd
      context.tasks fd ((e.realEvent context.events).inter context.events)

/-- The batch is dispatched to the end and submits just what is due. -/
def Dispatches (m : Manager) (batch : List Entry) : Prop :=
  ∃ m' fired, m.dispatch layout (batch.map Entry.exact) = .ok m' ∧ m'.submitted = m.submitted ++ fired ∧
    fired.Perm (batch.flatMap m.due)

structure Carries (m : Manager) (batch : List Entry) : Prop where
  pipe : ∀ e ∈ batch, e.source = .pipe → e.event.data = layout.pipeData
  socket : ∀ e ∈ batch, ∀ fd, e.source = .socket fd →
    e.event.data = layout.addr fd ∧ (m.interest fd).isSome = true
  distinct : (batch.map Entry.source).Nodup

/-- A task waits in a context just for the events registered there. -/
def Waiting (m : Manager) : Prop :=
  ∀ fd event, ((m.context fd).getEventContext event).isSome = (m.context fd).events.has event

/-- No socket entry; or a socket entry first, which reports only what its context waits for, or
nothing of it, and later ones with nothing due and nothing for the first context. -/
def Unmixed (m : Manager) : List Entry → Prop
  | [] => True
  | e :: rest =>
      match e.source with
      | .pipe => ∀ e' ∈ rest, e'.source = .pipe
      | .socket fd =>
          let waiting := (m.context fd).events
          let real := e.realEvent waiting
          let left := waiting.diff real
          (real.inter waiting = .none ∨ real.diff waiting = .none) ∧
            ∀ e' ∈ rest, m.due e' = [] ∧
              (e'.source = .pipe ∨ (e'.realEvent left).inter left = .none)

end Manager

end AsyncRPC.IOManager
