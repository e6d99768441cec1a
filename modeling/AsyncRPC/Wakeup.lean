import AsyncRPC.Durations
import AsyncRPC.KeepAlive
import AsyncRPC.Lib.Census
import AsyncRPC.Scheduler

/-!
# Wakeups

How the threads of an `IOManager` come to sleep in `epoll_wait` and what wakes them: the tasks, the
timers, `idleThreads_` and the pipe that `Notify` writes to. A step is a critical section, an access to
`idleThreads_`, or a call of the C library. The manager is not stopped.

`Submit` and the calls on timers are made by parties: what runs in a fiber, in `Run` after `Resume`, in
`Wait` or outside of the manager. A call of `epoll_wait` may return at any time, with any events beside
that of the pipe, which is edge-triggered: it is reported to one thread, once for all that was written
since the last time, and not if the pipe is empty by then.
-/

namespace AsyncRPC.Wakeup

open Scheduler (Task)

inductive Notifier
  | outside
  | testing
  | writing
  deriving Repr, DecidableEq

/-- Where a worker is, with the task that it has taken. -/
inductive Pc (F W : Type)
  | looking
  /-- Before the `hasIdleThreads` of its own `Notify`. -/
  | testing (task : Option (Task F W))
  | writing (task : Option (Task F W))
  | dispatching (task : Option (Task F W))
  | running (f : F)
  | counting
  | computing
  /-- In `epoll_wait`, with the reading of the clock that `next_time` comes from. -/
  | waiting (curr nextTime : Nat)
  /-- Before `listOverTimeCallback`; the pipe may be among the events. -/
  | woken (piped : Bool)
  | collected (piped : Bool)
  | leaving
  deriving Repr, DecidableEq

namespace Pc

variable {F W : Type}

/-- Between `++idleThreads_` and `--idleThreads_`. -/
def idle : Pc F W → Bool
  | .computing | .waiting _ _ | .woken _ | .collected _ | .leaving => true
  | .looking | .testing _ | .writing _ | .dispatching _ | .running _ | .counting => false

/-- It will look at the tasks, or have another worker look, before it sleeps. -/
def stirs : Pc F W → Bool
  | .looking | .testing _ | .writing _ | .woken _ | .collected _ | .leaving => true
  | .dispatching _ | .running _ | .counting | .computing | .waiting _ _ => false

/-- It has looked at the tasks and found none. -/
def dozes : Pc F W → Bool
  | .dispatching none | .counting | .computing | .waiting _ _ => true
  | .looking | .testing _ | .writing _ | .dispatching (some _) | .running _ | .woken _ | .collected _
  | .leaving => false

/-- It has looked at the tasks and found none, and is not counted as idle; it may be about to wake others
for tasks that are not its own. -/
def passes : Pc F W → Bool
  | .testing none | .writing none | .dispatching none | .counting => true
  | .looking | .testing (some _) | .writing (some _) | .dispatching (some _) | .running _ | .computing
  | .waiting _ _ | .woken _ | .collected _ | .leaving => false

/-- It will ask for the next timer, or have another worker ask, before it sleeps. -/
def asks : Pc F W → Bool
  | .looking | .testing _ | .writing _ | .dispatching none | .counting | .computing | .woken _
  | .collected _ | .leaving => true
  | .dispatching (some _) | .running _ | .waiting _ _ => false

def reads : Pc F W → Bool
  | .woken piped | .collected piped => piped
  | .looking | .testing _ | .writing _ | .dispatching _ | .running _ | .counting | .computing
  | .waiting _ _ | .leaving => false

end Pc

structure State (F W P : Type) where
  tasks : List (Task F W)
  timers : TimerHistory
  idleThreads : Nat
  pipe : Nat
  /-- The pipe is in the list of what is ready. -/
  ready : Bool
  pc : W → Pc F W
  notifier : P → Notifier

inductive Label (F W P : Type)
  | submit (p : P) (task : Option (Task F W))
  | timers (p : P) (call : TimerCall)
  | test (p : P)
  | write (p : P)
  /-- The fibers in `exec` are found in the state `EXEC`. -/
  | look (w : W) (exec : List F)
  | testOwn (w : W)
  | writeOwn (w : W)
  /-- Whether the fiber of the task has ended, and the fiber that runs callbacks. -/
  | dispatch (w : W) (ended : Bool) (spare : F)
  | finish (w : W)
  | count (w : W)
  | compute (w : W) (curr : Nat)
  | interrupt (w : W)
  | wake (w : W)
  | collect (w : W) (curr ptr : Nat)
  | handle (w : W)
  | uncount (w : W)
  deriving Repr, DecidableEq

/-- The timer is inserted by the `addTimer` that tells whether it is at the front. -/
def atFront (before after : TimerManager) : TimerCall → Bool
  | .addTimer _ _ _ _ _ => after.timers.head? = some before.made
  | .reset id ms fromNow _ =>
      ¬ ((before.objects id).ms = ms ∧ fromNow = false) ∧ (before.objects id).callback.isSome ∧
        after.timers.head? = some id
  | .cancel _ | .refresh _ _ | .listOverTimeCallback _ _ => false

namespace State

variable {F W P : Type} [DecidableEq F] [DecidableEq W] [DecidableEq P]

def goto (s : State F W P) (w : W) (pc : Pc F W) : State F W P :=
  { s with pc := Function.update s.pc w pc }

def setNotifier (s : State F W P) (p : P) (notifier : Notifier) : State F W P :=
  { s with notifier := Function.update s.notifier p notifier }

/-- `write(pipefd_[1], "N", 1)` -/
def signal (s : State F W P) : State F W P := { s with pipe := s.pipe + 1, ready := true }

def pinnedAway (w : W) (task : Task F W) : Bool := task.thread ≠ none && task.thread ≠ some w

/-- The loop over `tasks_` stops at the task. -/
def eligible (w : W) (exec : List F) (task : Task F W) : Bool :=
  !pinnedAway w task && task.fiber.all fun f => f ∉ exec

/-- The critical section of `Run`, which tells whether to call `Notify`. -/
def look (s : State F W P) (w : W) (exec : List F) : State F W P :=
  let task := s.tasks.find? (eligible w exec)
  let tickle := task.isSome || s.tasks.any (pinnedAway w)
  { s.goto w (if tickle then .testing task else .dispatching none) with
    tasks := s.tasks.eraseP (eligible w exec) }

/-- What follows `Notify` in `Run`. -/
def dispatch (s : State F W P) (w : W) (ended : Bool) (spare : F) : Option (Task F W) → State F W P
  | none => s.goto w .counting
  | some task =>
      match task.work with
      | .fiber f => if ended then s.goto w .counting else s.goto w (.running f)
      | .func => s.goto w (.running spare)

def submit (s : State F W P) (p : P) (task : Option (Task F W)) : State F W P :=
  let needNotify := s.tasks.isEmpty
  { s.setNotifier p (if needNotify then .testing else .outside) with tasks := s.tasks ++ task.toList }

/-- A call on the timers, with `onTimerInsertedAtFront` if the timer is at the front. -/
def useTimers (s : State F W P) (p : P) (call : TimerCall) : Option (State F W P) :=
  (s.timers.perform call).toOption.map fun timers =>
    { s.setNotifier p (if atFront s.timers.manager timers.manager call then .testing else .outside) with
      timers := timers }

/-- `listOverTimeCallback` in `Wait`; the callbacks are submitted by a party. -/
def collect (s : State F W P) (w : W) (piped : Bool) (curr ptr : Nat) : Option (State F W P) :=
  (s.timers.perform (.listOverTimeCallback curr ptr)).toOption.map fun timers =>
    { s.goto w (.collected piped) with timers := timers }

def step (s : State F W P) : Label F W P → Option (State F W P)
  | .submit p task => if s.notifier p = .outside then some (s.submit p task) else none
  | .timers p call => if s.notifier p = .outside then s.useTimers p call else none
  | .test p =>
      if s.notifier p = .testing then
        some (s.setNotifier p (if 0 < s.idleThreads then .writing else .outside))
      else none
  | .write p => if s.notifier p = .writing then some (s.signal.setNotifier p .outside) else none
  | .look w exec => if s.pc w = .looking then some (s.look w exec) else none
  | .testOwn w =>
      match s.pc w with
      | .testing task =>
          some (s.goto w (if 0 < s.idleThreads then .writing task else .dispatching task))
      | _ => none
  | .writeOwn w =>
      match s.pc w with
      | .writing task => some (s.signal.goto w (.dispatching task))
      | _ => none
  | .dispatch w ended spare =>
      match s.pc w with
      | .dispatching task => some (s.dispatch w ended spare task)
      | _ => none
  | .finish w =>
      match s.pc w with
      | .running _ => some (s.goto w .looking)
      | _ => none
  | .count w =>
      if s.pc w = .counting then
        some { s.goto w .computing with idleThreads := s.idleThreads + 1 }
      else none
  | .compute w curr =>
      if s.pc w = .computing then
        let nextTime := IOManager.clampTimeout (s.timers.manager.getNextTimerTime curr)
        some (s.goto w (.waiting curr nextTime))
      else none
  | .interrupt w =>
      match s.pc w with
      | .waiting curr nextTime => some (s.goto w (.waiting curr (IOManager.clampTimeout nextTime)))
      | _ => none
  | .wake w =>
      match s.pc w with
      | .waiting _ _ => some { s.goto w (.woken (s.ready && 0 < s.pipe)) with ready := false }
      | _ => none
  | .collect w curr ptr =>
      match s.pc w with
      | .woken piped => s.collect w piped curr ptr
      | _ => none
  | .handle w =>
      match s.pc w with
      | .collected piped => some { s.goto w .leaving with pipe := if piped then 0 else s.pipe }
      | _ => none
  | .uncount w =>
      if s.pc w = .leaving then
        some { s.goto w .looking with idleThreads := s.idleThreads - 1 }
      else none

def Step (s : State F W P) (l : Label F W P) (t : State F W P) : Prop := s.step l = some t

/-- A fiber is in the state `EXEC` only while a worker runs it, and only `Wait` makes passes. -/
def Possible (s : State F W P) : Label F W P → Prop
  | .look _ exec => ∀ f ∈ exec, ∃ w, s.pc w = .running f
  | .timers _ call => s.timers.Possible call ∧ ∀ curr ptr, call ≠ .listOverTimeCallback curr ptr
  | .collect _ _ ptr => s.timers.Unused ptr
  | _ => True

end State

structure New {F W P : Type} (s : State F W P) : Prop where
  tasks : s.tasks = []
  timers : s.timers = .init
  idleThreads : s.idleThreads = 0
  pipe : s.pipe = 0
  ready : s.ready = false
  pc : ∀ w, s.pc w = .looking
  notifier : ∀ p, s.notifier p = .outside

namespace State

variable {F W P : Type} [DecidableEq F] [DecidableEq W] [DecidableEq P]

/-! ### Tasks -/

/-- A thread that waits for events will be told of the pipe, or somebody is in `Notify`. -/
def Signalled (s : State F W P) : Prop := (s.ready = true ∧ 0 < s.pipe) ∨ ∃ p, s.notifier p ≠ .outside

/-- Somebody is about to look at the tasks, or to wake somebody who will. -/
def Stirring (s : State F W P) : Prop := s.Signalled ∨ ∃ w, (s.pc w).stirs = true

/-- The worker could take the task: it may, and no worker runs its fiber. -/
def Takes (s : State F W P) (w : W) (task : Task F W) : Prop :=
  pinnedAway w task = false ∧ ∀ f, task.fiber = some f → ∀ w', s.pc w' ≠ .running f

/-- No worker that could take a task has gone to sleep, or is about to, with nobody to wake it. -/
def Attended (s : State F W P) : Prop :=
  ∀ w, (s.pc w).dozes = true → ∀ task ∈ s.tasks, s.Takes w task → s.Stirring

instance [Fintype P] (s : State F W P) : Decidable s.Signalled :=
  inferInstanceAs (Decidable ((s.ready = true ∧ 0 < s.pipe) ∨ ∃ p, s.notifier p ≠ .outside))

instance [Fintype W] [Fintype P] (s : State F W P) : Decidable s.Stirring :=
  inferInstanceAs (Decidable (s.Signalled ∨ ∃ w, (s.pc w).stirs = true))

instance [Fintype F] [Fintype W] (s : State F W P) (w : W) (task : Task F W) :
    Decidable (s.Takes w task) :=
  inferInstanceAs (Decidable (pinnedAway w task = false ∧
    ∀ f, task.fiber = some f → ∀ w', s.pc w' ≠ .running f))

instance [Fintype F] [Fintype W] [Fintype P] (s : State F W P) : Decidable s.Attended :=
  inferInstanceAs (Decidable (∀ w, (s.pc w).dozes = true → ∀ task ∈ s.tasks, s.Takes w task →
    s.Stirring))

/-- No worker that has passed the tasks by and is not counted as idle could take one of them. -/
def Clear (s : State F W P) : Prop :=
  ∀ w, (s.pc w).passes = true → ∀ task ∈ s.tasks, ¬ s.Takes w task

/-- Unless somebody else is stirring, a task that a dozing worker could take is not submitted behind
others; no worker passes such tasks by while `Notify` finds no idle thread; and no worker that has taken
the task of an ended fiber goes to sleep while there is one that it could take. -/
def Timely (s : State F W P) : Label F W P → Prop
  | .submit _ task => s.tasks = [] ∨ s.Stirring ∨
      ∀ new ∈ task, ∀ w, (s.pc w).dozes = true → ¬ s.Takes w new
  | .test p => 0 < s.idleThreads ∨ (s.setNotifier p .outside).Stirring ∨ s.Clear
  | .testOwn w => 0 < s.idleThreads ∨ (s.goto w .counting).Stirring ∨ s.Clear
  | .dispatch w ended _ => ∀ task f, s.pc w = .dispatching (some task) → task.fiber = some f →
      ended = true → s.Stirring ∨ ∀ other ∈ s.tasks, ¬ s.Takes w other
  | _ => True

def Enabled (s : State F W P) (l : Label F W P) : Prop := s.Possible l ∧ (s.step l).isSome = true

/-! ### Timers -/

/-- The time to the next timer that a worker computes can be converted to an `int`, and `refresh`, which
wakes nobody, does not bring the deadline forward. -/
def Unhurried (s : State F W P) : Label F W P → Prop
  | .compute _ curr =>
      s.timers.manager.getNextTimerTime curr = 2 ^ 64 - 1 ∨
        s.timers.manager.getNextTimerTime curr % 2 ^ 32 < 2 ^ 31
  | .timers _ (.refresh id now) => (s.timers.manager.objects id).next ≤
      Word.addSize now (s.timers.manager.objects id).ms
  | _ => True

def Bounded (s : State F W P) : Prop :=
  ∀ w curr nextTime, s.pc w = .waiting curr nextTime →
    0 ≤ Word.intOfSize nextTime ∧ Word.intOfSize nextTime ≤ 3000

/-- While a worker waits for events, one of those that do will return before any timer is due, or
somebody is about to ask for the next timer, or to wake somebody who will. -/
def Punctual (s : State F W P) : Prop :=
  (∃ w curr nextTime, s.pc w = .waiting curr nextTime) →
    (s.Signalled ∨ ∃ w, (s.pc w).asks = true) ∨
      ∃ w curr nextTime, s.pc w = .waiting curr nextTime ∧
        ∀ id ∈ s.timers.manager.timers,
          Word.intOfSize nextTime ≤ ((s.timers.manager.objects id).next - curr : Nat)

/-! ### The pipe -/

/-- `idleThreads_` counts the idle threads, and what is in the pipe is still to be reported or read. -/
structure Accounted [Fintype W] (s : State F W P) : Prop where
  idleThreads : s.idleThreads = Census.census Pc.idle s.pc
  pipe : 0 < s.pipe → s.ready = true ∨ ∃ w, (s.pc w).reads = true

end State

end AsyncRPC.Wakeup
