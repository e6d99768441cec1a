import AsyncRPC.EpollFailure
import AsyncRPC.FdManager
import AsyncRPC.KeepAlive

/-!
# Hooked I/O

`do_io` and `connect_with_timeout` of any number of fibers on one `IOManager`: its event table, whose
`submitted` here keeps the tasks that have not been executed yet, its timers, and the callbacks of
timers that `Wait` has submitted. A step is a critical section, a call of the C library, or a read or
a write of `*timecondition`. What a function of the C library returns comes with the step.

A descriptor is not negative: for one that is, `getFdContext` leaves its table. A fiber has switched
out before another thread takes the task that resumes it.
-/

namespace AsyncRPC.HookedIO

open IOManager (Fd Event EpollCtl Layout Task)

def eintr : Nat := 4

def eagain : Nat := 11

def etimedout : Nat := 110

def einprogress : Nat := 115

/-- `(uint64_t)-1` -/
def forever : Nat := 2 ^ 64 - 1

/-- What a function of the C library returns, and `errno` then. -/
structure Answer where
  n : Int
  errno : Nat
  deriving Repr, DecidableEq

def Answer.fails (a : Answer) (errno : Nat) : Bool := a.n = -1 && a.errno = errno

/-- `FdContext::getTimeout` of the socket option for the event. -/
def getTimeout (context : FdManager.FdContext) : Event → Nat
  | .read => context.recvTimeout.toNat
  | .write => context.sendTimeout.toNat

inductive Gate
  | direct
  | closed
  | waits (timeout : Nat)
  deriving Repr, DecidableEq

inductive Kind
  | io (event : Event)
  | connect (timeout : Nat)
  deriving Repr, DecidableEq

namespace Kind

def event : Kind → Event
  | .io event => event
  | .connect _ => .write

/-- Without a context `do_io` takes the descriptor for no socket, and `connect` for a bad one. -/
def gate (enabled : Bool) (fdctx : Option FdManager.FdContext) : Kind → Gate
  | .io event =>
      if !enabled then .direct
      else
        match fdctx with
        | none => .direct
        | some context =>
            if context.isClose then .closed
            else if !context.isSocket || context.userNonblock then .direct
            else .waits (getTimeout context event)
  | .connect timeout =>
      if !enabled then .direct
      else
        match fdctx with
        | none => .closed
        | some context =>
            if context.isClose then .closed
            else if !context.isSocket then .direct
            else if context.userNonblock then .direct
            else .waits timeout

/-- The original function is called again at once. -/
def interrupted (kind : Kind) (a : Answer) : Bool :=
  match kind with
  | .io _ => a.fails eintr
  | .connect _ => false

/-- The fiber is to wait. -/
def pending (kind : Kind) (a : Answer) : Bool :=
  match kind with
  | .io _ => a.fails eagain
  | .connect _ => a.fails einprogress

/-- The caller of a blocking call would not get to see it. -/
def transient (kind : Kind) (a : Answer) : Bool := kind.interrupted a || kind.pending a

end Kind

structure Call where
  fiber : Nat
  fd : Fd
  kind : Kind
  timeout : Nat
  /-- The original function may be called again, and the fiber be suspended. -/
  hooked : Bool

def Call.event (call : Call) : Event := call.kind.event

inductive Outcome
  | answered (a : Answer)
  /-- `-1`, `errno` being `EBADF` -/
  | closed
  /-- `-1`, `errno` being `*timecondition` -/
  | timedOut (errno : Nat)
  /-- `-1`, since `addEvent` failed -/
  | notAdded
  /-- `SO_ERROR`, if `getsockopt` gets it -/
  | soError (error : Option Nat)
  deriving Repr, DecidableEq

inductive Pc
  | outside
  | direct (c : Nat)
  | calling (c : Nat)
  | arming (c : Nat)
  | adding (c : Nat) (timer : Option Nat)
  | refused (c : Nat) (timer : Option Nat)
  | waiting (c : Nat) (timer : Option Nat)
  | resumed (c : Nat) (timer : Option Nat)
  | checking (c : Nat)
  | finishing (c : Nat)
  deriving Repr, DecidableEq

def Pc.call : Pc → Option Nat
  | .outside => none
  | .direct c | .calling c | .arming c | .adding c _ | .refused c _ | .waiting c _ | .resumed c _
  | .checking c | .finishing c => some c

def Pc.timer : Pc → Option Nat
  | .adding _ timer | .refused _ timer | .waiting _ timer | .resumed _ timer => timer
  | .outside | .direct _ | .calling _ | .arming _ | .checking _ | .finishing _ => none

structure State where
  table : IOManager.Manager
  timers : TimerHistory
  pc : Nat → Pc
  call : Nat → Call
  made : Nat
  /-- `*timecondition` of a call that has one. -/
  condition : Nat → Option Nat
  /-- The call whose `weak_cond` the callback of a timer has captured. -/
  captured : Nat → Option Nat
  since : Nat → Nat
  callbacks : List Nat
  /-- The calls whose callbacks have found `*t` to be 0, and not set it yet. -/
  writing : List Nat
  /-- The calls whose callbacks have set it, and `cancelEvent` is to come. -/
  cancelling : List Nat
  /-- What the original function has returned in a call so far. -/
  answers : Nat → List Answer
  returned : List (Nat × Outcome)
  deleted : List Nat

inductive Label
  /-- The descriptor's context is looked up with the hooks on or off. -/
  | call (f : Nat) (fd : Fd) (kind : Kind) (enabled : Bool) (fdctx : Option FdManager.FdContext)
  | answer (f : Nat) (a : Answer)
  | arm (f : Nat) (ptr now : Nat)
  | add (f : Nat) (ctl : EpollCtl)
  | refuse (f : Nat)
  | resume (f : Nat)
  | disarm (f : Nat)
  | check (f : Nat)
  | getsockopt (f : Nat) (error : Option Nat)
  /-- `Wait` collects the timers that are due and submits their callbacks. -/
  | expire (curr ptr : Nat)
  | dispatch (batch : List (IOManager.Manager.Entry × EpollCtl))
  /-- The callback of a timer, up to `if (!t || *t)`. -/
  | fire (timer : Nat)
  /-- `*t = ETIMEDOUT` -/
  | write (c : Nat)
  | cancel (c : Nat) (ctl : EpollCtl)
  | table (c : IOManager.Manager.Call)
  | timers (call : TimerCall)

def isOf (f : Nat) (task : Fd × Event × Task) : Bool := task.2.2 = .fiber f

namespace State

variable (layout : Layout)

def goto (s : State) (f : Nat) (pc : Pc) : State := { s with pc := Function.update s.pc f pc }

def setCondition (s : State) (c errno : Nat) : State :=
  { s with condition := Function.update s.condition c (some errno) }

def record (s : State) (c : Nat) (a : Answer) : State :=
  { s with answers := Function.update s.answers c (s.answers c ++ [a]) }

def finish (s : State) (f c : Nat) (outcome : Outcome) : State :=
  { s.goto f .outside with returned := s.returned ++ [(c, outcome)] }

def cancelTimer (s : State) : Option Nat → Option State
  | none => some s
  | some id => (s.timers.perform (.cancel id)).toOption.map fun timers => { s with timers := timers }

def holder (s : State) (fd : Fd) (event : Event) : Option Nat :=
  match (s.table.context fd).getEventContext event with
  | some (.fiber f) => some f
  | _ => none

/-- The call in which a fiber waits for an event. -/
def holding (s : State) (fd : Fd) (event : Event) : Option Nat :=
  (s.holder fd event).bind fun f => (s.pc f).call

/-- A hooked call is made and its descriptor looked up. `connect` makes its `timecondition` only when
it has to wait; until then nobody reads it. -/
def start (s : State) (f : Nat) (fd : Fd) (kind : Kind) : Gate → State
  | .closed =>
      { s with
        call := Function.update s.call s.made ⟨f, fd, kind, forever, false⟩
        made := s.made + 1
        returned := s.returned ++ [(s.made, .closed)] }
  | .direct =>
      { s.goto f (.direct s.made) with
        call := Function.update s.call s.made ⟨f, fd, kind, forever, false⟩
        made := s.made + 1 }
  | .waits timeout =>
      { (s.goto f (.calling s.made)).setCondition s.made 0 with
        call := Function.update s.call s.made ⟨f, fd, kind, timeout, true⟩
        made := s.made + 1 }

def answer (s : State) (f c : Nat) (a : Answer) : State :=
  let s := s.record c a
  let kind := (s.call c).kind
  if kind.interrupted a then s
  else if kind.pending a then s.goto f (.arming c)
  else s.finish f c (.answered a)

/-- `addConditionTimer`, unless the call may wait for ever. -/
def arm (s : State) (f c ptr now : Nat) : Option State :=
  let timeout := (s.call c).timeout
  if timeout = forever then some (s.goto f (.adding c none))
  else
    let id := s.timers.manager.made
    (s.timers.perform (.addTimer ptr now timeout (some 0) false)).toOption.map fun timers =>
      { s.goto f (.adding c (some id)) with
        timers := timers
        captured := Function.update s.captured id (some c)
        since := Function.update s.since id now }

def add (s : State) (f c : Nat) (timer : Option Nat) (ctl : EpollCtl) : Option State :=
  (s.table.addEvent layout ctl (s.call c).fd (s.call c).event (.fiber f)).toOption.map fun done =>
    { s.goto f (if done.1 then .waiting c timer else .refused c timer) with table := done.2 }

/-- A scheduler resumes the fiber, for which it takes a task of it. -/
def resume (s : State) (f c : Nat) (timer : Option Nat) : Option State :=
  if s.table.submitted.any (isOf f) then
    some
      { s.goto f (.resumed c timer) with
        table := { s.table with submitted := s.table.submitted.eraseP (isOf f) } }
  else none

def check (s : State) (f c : Nat) : Option State :=
  match s.condition c with
  | none => none
  | some 0 =>
      match (s.call c).kind with
      | .io _ => some (s.goto f (.calling c))
      | .connect _ => some (s.goto f (.finishing c))
  | some errno => some (s.finish f c (.timedOut errno))

def expire (s : State) (curr ptr : Nat) : Option State :=
  (s.timers.perform (.listOverTimeCallback curr ptr)).toOption.map fun timers =>
    { s with
      timers := timers
      callbacks := s.callbacks ++ s.timers.manager.expired curr ptr }

/-- `weak_cond.lock()` gives a pointer: the call has not returned, or another callback of it has one. -/
def locks (s : State) (c : Nat) : Bool :=
  c ∉ s.returned.map Prod.fst || c ∈ s.writing || c ∈ s.cancelling

/-- `onTimer`, and the callback up to `if (!t || *t)`. -/
def fire (s : State) (timer : Nat) : State :=
  let s := { s with callbacks := s.callbacks.erase timer }
  match s.captured timer with
  | none => s
  | some c => if s.locks c ∧ s.condition c = some 0 then { s with writing := s.writing ++ [c] } else s

def write (s : State) (c : Nat) : State :=
  { s.setCondition c etimedout with
    writing := s.writing.erase c
    cancelling := s.cancelling ++ [c] }

def cancel (s : State) (c : Nat) (ctl : EpollCtl) : Option State :=
  let done := s.table.cancelEvent layout ctl (s.call c).fd (s.call c).event
  done.toOption.map fun done => { s with table := done.2, cancelling := s.cancelling.erase c }

def use (s : State) (c : IOManager.Manager.Call) : Option State :=
  (s.table.call layout c).toOption.map fun done =>
    let deleted :=
      match c with
      | .delEvent fd event _ => if done.1 then (s.holding fd event).toList else []
      | _ => []
    { s with table := done.2, deleted := s.deleted ++ deleted }

/-- A failed assertion ends the process: there is no step. -/
def step (s : State) : Label → Option State
  | .call f fd kind enabled fdctx =>
      match s.pc f with
      | .outside => some (s.start f fd kind (kind.gate enabled fdctx))
      | _ => none
  | .answer f a =>
      match s.pc f with
      | .direct c => some ((s.record c a).finish f c (.answered a))
      | .calling c => some (s.answer f c a)
      | _ => none
  | .arm f ptr now =>
      match s.pc f with
      | .arming c => s.arm f c ptr now
      | _ => none
  | .add f ctl =>
      match s.pc f with
      | .adding c timer => s.add layout f c timer ctl
      | _ => none
  | .refuse f =>
      match s.pc f with
      | .refused c timer => (s.cancelTimer timer).map fun s => s.finish f c .notAdded
      | _ => none
  | .resume f =>
      match s.pc f with
      | .waiting c timer => s.resume f c timer
      | _ => none
  | .disarm f =>
      match s.pc f with
      | .resumed c timer => (s.cancelTimer timer).map fun s => s.goto f (.checking c)
      | _ => none
  | .check f =>
      match s.pc f with
      | .checking c => s.check f c
      | _ => none
  | .getsockopt f error =>
      match s.pc f with
      | .finishing c => some (s.finish f c (.soError error))
      | _ => none
  | .expire curr ptr => s.expire curr ptr
  | .dispatch batch =>
      (s.table.dispatch layout batch).toOption.map fun table => { s with table := table }
  | .fire timer => if timer ∈ s.callbacks then some (s.fire timer) else none
  | .write c => if c ∈ s.writing then some (s.write c) else none
  | .cancel c ctl =>
      if c ∈ s.cancelling then s.cancel layout c ctl else none
  | .table c => s.use layout c
  | .timers call => (s.timers.perform call).toOption.map fun timers => { s with timers := timers }

def Step (s : State) (l : Label) (t : State) : Prop := s.step layout l = some t

/-- `new` returns memory that is not in use. Somebody else adds callbacks to the table, not a fiber
that is in a hooked call, and does not know the timers of the hooked calls. No descriptor is so high
that the size of the table would not fit an `int`. -/
def Possible (s : State) : Label → Prop
  | .call _ fd _ _ _ => fd.val < 2 ^ 30
  | .arm _ ptr _ | .expire _ ptr => s.timers.Unused ptr
  | .table c => ∀ fd event task ctl, c = .addEvent fd event task ctl →
      fd.val < 2 ^ 30 ∧ ∃ id, task = .callback id
  | .timers call => s.timers.Possible call ∧ (∀ id ∈ KeepAlive.on call, s.captured id = none) ∧
      ∀ curr ptr, call ≠ .listOverTimeCallback curr ptr
  | _ => True

end State

structure New (s : State) : Prop where
  table : s.table = .init
  timers : s.timers = .init
  pc : ∀ f, s.pc f = .outside
  made : s.made = 0
  condition : ∀ c, s.condition c = none
  captured : ∀ id, s.captured id = none
  callbacks : s.callbacks = []
  writing : s.writing = []
  cancelling : s.cancelling = []
  answers : ∀ c, s.answers c = []
  returned : s.returned = []
  deleted : s.deleted = []

def Reached (layout : Layout) (s : State) : Prop :=
  Transition.Reachable (Transition.Guarded State.Possible (State.Step layout)) New s

/-! ### What wakes a fiber -/

/-- The fiber waits in the table for an event. -/
def Registered (m : IOManager.Manager) (f : Nat) (fd : Fd) (event : Event) : Prop :=
  (m.context fd).getEventContext event = some (.fiber f)

def queued (m : IOManager.Manager) (f : Nat) : Nat := m.submitted.countP (isOf f)

/-- A fiber that waits for an event is registered for this event alone or has one task submitted, not
both; and one that does not wait has neither. -/
structure Seated (m : IOManager.Manager) (place : Nat → Option (Fd × Event)) : Prop where
  registered : ∀ f fd event, Registered m f fd event → place f = some (fd, event) ∧ queued m f = 0
  waiting : ∀ f fd event, place f = some (fd, event) → Registered m f fd event ∨ queued m f = 1
  outside : ∀ f, place f = none → queued m f = 0

namespace State

/-- What a suspended fiber waits for, unless its event was deleted. -/
def place (s : State) (f : Nat) : Option (Fd × Event) :=
  match s.pc f with
  | .waiting c _ => if c ∈ s.deleted then none else some ((s.call c).fd, (s.call c).event)
  | _ => none

end State

/-! ### What a call returns -/

namespace Call

/-- The original function has been called in vain so far, which `connect` does not do again. -/
def Tries (call : Call) (answers : List Answer) : Prop :=
  (∀ a ∈ answers, call.kind.transient a = true) ∧ (answers ≠ [] → ∃ event, call.kind = .io event)

/-- The last answer was that the call has to wait. -/
def Waits (call : Call) (answers : List Answer) : Prop :=
  ∃ before a, answers = before ++ [a] ∧ call.Tries before ∧ call.kind.pending a = true

/-- What a call returns after these answers of the original function: the first that a blocking call
would return, or that the wait has failed. -/
def Explains (call : Call) (answers : List Answer) : Outcome → Prop
  | .closed => call.hooked = false ∧ answers = []
  | .answered a =>
      if call.hooked then
        ∃ before, answers = before ++ [a] ∧ call.Tries before ∧ call.kind.transient a = false
      else answers = [a]
  | .timedOut errno => errno = etimedout ∧ call.hooked = true ∧ call.Waits answers
  | .notAdded => call.hooked = true ∧ call.Waits answers
  | .soError _ => call.hooked = true ∧ call.Waits answers ∧ ∃ timeout, call.kind = .connect timeout

end Call

namespace State

/-- Each call returns once at most, and what its answers explain. -/
structure Returns (s : State) : Prop where
  once : (s.returned.map Prod.fst).Nodup
  explained : ∀ c outcome, (c, outcome) ∈ s.returned → (s.call c).Explains (s.answers c) outcome

/-- The timer of a hooked call is in the set only while the call's fiber is in it and has still to
cancel it. -/
def Disarms (s : State) : Prop :=
  ∀ id c, s.captured id = some c → id ∈ s.timers.manager.timers →
    ∃ f, (s.call c).fiber = f ∧ (s.pc f).call = some c ∧ (s.pc f).timer = some id

/-- A timer of the call was collected by `Wait`, and not before the timeout had passed since it was
made, if its deadline fits 64 bits. -/
def Expired (s : State) (c : Nat) : Prop :=
  ∃ id curr next, s.captured id = some c ∧ .collected id curr next ∈ s.timers.log ∧
    (s.since id + (s.call c).timeout < 2 ^ 64 → s.since id + (s.call c).timeout ≤ curr)

/-- No call whose deadline fits ends with a timeout that has not run out. -/
def Punctual (s : State) : Prop :=
  ∀ c errno, (c, .timedOut errno) ∈ s.returned → s.Expired c

/-! ### Timeouts that are not lost -/

/-- A callback sets the condition of a call only while the call's fiber is suspended, as it is with one
thread, and the kernel does not refuse to let go of the event. -/
def Calm (s : State) : Label → Prop
  | .write c => ∃ timer, s.pc (s.call c).fiber = .waiting c timer
  | .cancel c ctl => ∀ op event, op ≠ .add → (ctl s.table.interest op (s.call c).fd event).isSome = true
  | _ => True

/-- A suspended fiber whose call has timed out is submitted, or about to be, unless its event was
deleted. -/
def Alarmed (s : State) : Prop :=
  ∀ f c timer errno, s.pc f = .waiting c timer → s.condition c = some errno → errno ≠ 0 →
    c ∈ s.deleted ∨ c ∈ s.cancelling ∨ queued s.table f = 1

/-! ### After a timeout -/

/-- The kernel answers from its interest map. -/
def Exact : Label → Prop
  | .add _ ctl | .cancel _ ctl | .table (.addEvent _ _ _ ctl) | .table (.delEvent _ _ ctl)
  | .table (.cancelEvent _ _ ctl) | .table (.cancelAllEvent _ ctl) => ctl = IOManager.epollCtl
  | .dispatch batch => ∀ e ∈ batch, e.2 = IOManager.epollCtl
  | _ => True

def Adds (s : State) (fd : Fd) : Label → Prop
  | .add f _ => ∃ c timer, s.pc f = .adding c timer ∧ (s.call c).fd = fd
  | .table (.addEvent fd' _ _ _) => fd' = fd
  | _ => False

end State

/-- The kernel is still interested in a descriptor whose context waits for nothing. -/
structure Stale (m : IOManager.Manager) (fd : Fd) : Prop where
  interest : (m.interest fd).isSome = true
  events : (m.context fd).events = .none

end AsyncRPC.HookedIO
