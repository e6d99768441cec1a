import AsyncRPC.Lib.Run
import Mathlib.Data.Fintype.Defs
import Mathlib.Logic.Function.Basic

/-!
# Scheduler

One `Scheduler`, or `IOManager`, from `Start` on: its worker threads in `Run`, the fibers they resume,
and whoever submits tasks to it. A step is a critical section under `mutex_`, or an access to
`state_`, `stop_` or `activeThreads_`, or a switch of contexts. What a fiber does while it runs is left
open; it may submit anything.

A worker's `idle_fiber` is submitted nowhere, so only its worker ever resumes it. `Notify` wakes a
thread that waits for events and does nothing else.
-/

namespace AsyncRPC.Scheduler

inductive FiberState
  | init
  | hold
  | exec
  | term
  | ready
  | except
  deriving Repr, DecidableEq

def FiberState.isTerminate : FiberState → Bool
  | .term | .except => true
  | .init | .hold | .exec | .ready => false

/-- What `Fiber::Reset` asserts. -/
def FiberState.resettable : FiberState → Bool
  | .init | .term | .except => true
  | .hold | .exec | .ready => false

inductive Work (F : Type)
  | fiber (f : F)
  | func
  deriving Repr, DecidableEq

/-- `ScheduleTask`; the code has no tickets. -/
structure Task (F W : Type) where
  work : Work F
  thread : Option W
  ticket : Nat
  deriving Repr, DecidableEq

def Task.fiber {F W : Type} (task : Task F W) : Option F :=
  match task.work with
  | .fiber f => some f
  | .func => none

/-- The branch of `Run` by which a worker resumes a fiber. -/
inductive Origin
  /-- The fiber is the task's. -/
  | fiber
  /-- The task is a callback, and the fiber the worker's own. -/
  | func
  deriving Repr, DecidableEq

inductive Stage
  | counting
  | asserting
  | executing
  | entering
  | running
  /-- The fiber has set its state, and not switched out yet. -/
  | yielding
  /-- `Resume` has returned, before `--activeThreads_`. -/
  | returned
  | checking
  | resubmitting
  deriving Repr, DecidableEq

/-- From its task to its last switch out, the fiber is the worker's. -/
def Stage.inHand : Stage → Bool
  | .counting | .asserting | .executing | .entering | .running | .yielding => true
  | .returned | .checking | .resubmitting => false

/-- The fiber of the task is still to be switched in. -/
def Stage.before : Stage → Bool
  | .counting | .asserting | .executing | .entering => true
  | .running | .yielding | .returned | .checking | .resubmitting => false

inductive Pc (F W : Type)
  | testing
  | selecting
  | selected (task : Option (Task F W))
  | resetting (f : F) (k : Nat)
  | creating (k : Nat)
  | engaged (stage : Stage) (f : F) (origin : Origin) (k : Nat)
  | recycling (f : F)
  | idling
  | waiting
  | left
  deriving Repr, DecidableEq

structure State (F W : Type) where
  stop : Bool
  activeThreads : Nat
  tasks : List (Task F W)
  state : F → Option FiberState
  pc : W → Pc F W
  /-- `fiber`, which a worker keeps for callbacks. -/
  spare : W → Option F
  idleEnded : W → Bool
  next : Nat
  /-- The task's fiber was switched in, or found to have ended. -/
  served : Nat → Bool

structure New {F W : Type} (s : State F W) : Prop where
  stop : s.stop = false
  activeThreads : s.activeThreads = 0
  tasks : s.tasks = []
  state : ∀ f, s.state f = none
  pc : ∀ w, s.pc w = .testing
  spare : ∀ w, s.spare w = none
  idleEnded : ∀ w, s.idleEnded w = false
  next : s.next = 0

/-- How a fiber leaves its stack: `YieldToHold`, `YieldToReady`, or the end of `MainFunc`. -/
inductive Yield
  | hold
  | ready
  | term
  deriving Repr, DecidableEq

def Yield.state : Yield → FiberState
  | .hold => .hold
  | .ready => .ready
  | .term => .term

inductive Label (F W : Type)
  | create (f : F)
  | submit (work : Work F) (thread : Option W)
  | stop
  | test (w : W)
  | select (w : W)
  | dispatch (w : W)
  | reset (w : W)
  | spawn (w : W) (f : F)
  | count (w : W)
  | assert (w : W)
  | exec (w : W)
  | switchIn (w : W)
  | yield (w : W) (way : Yield)
  | switchOut (w : W)
  | uncount (w : W)
  | check (w : W)
  | resubmit (w : W)
  | recycle (w : W)
  /-- `Stopping`; an `IOManager` is not quiet while it has events or timers. -/
  | idle (w : W) (quiet : Bool)
  | wait (w : W)
  deriving Repr, DecidableEq

namespace State

variable {F W : Type} [DecidableEq F] [DecidableEq W]

def goto (s : State F W) (w : W) (pc : Pc F W) : State F W :=
  { s with pc := Function.update s.pc w pc }

def setState (s : State F W) (f : F) (state : FiberState) : State F W :=
  { s with state := Function.update s.state f (some state) }

def setSpare (s : State F W) (w : W) (spare : Option F) : State F W :=
  { s with spare := Function.update s.spare w spare }

def serve (s : State F W) (k : Nat) : State F W :=
  { s with served := Function.update s.served k true }

def push (s : State F W) (work : Work F) (thread : Option W) : State F W :=
  { s with
    tasks := s.tasks ++ [⟨work, thread, s.next⟩]
    next := s.next + 1
    served := Function.update s.served s.next false }

/-- The loop over `tasks_` stops at the task. -/
def eligible (s : State F W) (w : W) (task : Task F W) : Bool :=
  (task.thread = none || task.thread = some w) &&
    match task.work with
    | .fiber f => s.state f ≠ some .exec
    | .func => true

def stopping (s : State F W) : Bool := s.stop && s.tasks.isEmpty && s.activeThreads = 0

def beIdle (s : State F W) (w : W) : State F W :=
  if s.idleEnded w then s.goto w .left else s.goto w .idling

def dispatch (s : State F W) (w : W) : Option (Task F W) → State F W
  | none => s.beIdle w
  | some task =>
      match task.work with
      | .fiber f =>
          if (s.state f).any FiberState.isTerminate then (s.serve task.ticket).beIdle w
          else s.goto w (.engaged .counting f .fiber task.ticket)
      | .func =>
          match s.spare w with
          | some f => s.goto w (.resetting f task.ticket)
          | none => s.goto w (.creating task.ticket)

def check (s : State F W) (w : W) (f : F) (origin : Origin) (k : Nat) : State F W :=
  if s.state f = some .ready then s.goto w (.engaged .resubmitting f origin k)
  else
    match origin with
    | .fiber => s.goto w .testing
    | .func =>
        if (s.state f).any FiberState.isTerminate then s.goto w (.recycling f)
        else (s.setSpare w none).goto w .testing

/-- A failed assertion ends the process: there is no step. -/
def step (s : State F W) : Label F W → Option (State F W)
  | .create f => if s.state f = none then some (s.setState f .init) else none
  | .submit work thread =>
      match work with
      | .fiber f => if s.state f = none then none else some (s.push work thread)
      | .func => some (s.push work thread)
  | .stop => some { s with stop := true }
  | .test w =>
      match s.pc w with
      | .testing => some (if s.stop then s.goto w .left else s.goto w .selecting)
      | _ => none
  | .select w =>
      match s.pc w with
      | .selecting =>
          some { s.goto w (.selected (s.tasks.find? (s.eligible w))) with
            tasks := s.tasks.eraseP (s.eligible w) }
      | _ => none
  | .dispatch w =>
      match s.pc w with
      | .selected task => some (s.dispatch w task)
      | _ => none
  | .reset w =>
      match s.pc w with
      | .resetting f k =>
          if (s.state f).any FiberState.resettable then
            some ((s.setState f .init).goto w (.engaged .counting f .func k))
          else none
      | _ => none
  | .spawn w f =>
      match s.pc w with
      | .creating k =>
          if s.state f = none then
            some (((s.setState f .init).setSpare w (some f)).goto w (.engaged .counting f .func k))
          else none
      | _ => none
  | .count w =>
      match s.pc w with
      | .engaged .counting f origin k =>
          some { s.goto w (.engaged .asserting f origin k) with activeThreads := s.activeThreads + 1 }
      | _ => none
  | .assert w =>
      match s.pc w with
      | .engaged .asserting f origin k =>
          if s.state f = some .exec then none else some (s.goto w (.engaged .executing f origin k))
      | _ => none
  | .exec w =>
      match s.pc w with
      | .engaged .executing f origin k =>
          some ((s.setState f .exec).goto w (.engaged .entering f origin k))
      | _ => none
  | .switchIn w =>
      match s.pc w with
      | .engaged .entering f origin k => some ((s.serve k).goto w (.engaged .running f origin k))
      | _ => none
  | .yield w way =>
      match s.pc w with
      | .engaged .running f origin k =>
          some ((s.setState f way.state).goto w (.engaged .yielding f origin k))
      | _ => none
  | .switchOut w =>
      match s.pc w with
      | .engaged .yielding f origin k => some (s.goto w (.engaged .returned f origin k))
      | _ => none
  | .uncount w =>
      match s.pc w with
      | .engaged .returned f origin k =>
          some { s.goto w (.engaged .checking f origin k) with activeThreads := s.activeThreads - 1 }
      | _ => none
  | .check w =>
      match s.pc w with
      | .engaged .checking f origin k => some (s.check w f origin k)
      | _ => none
  | .resubmit w =>
      match s.pc w with
      | .engaged .resubmitting f origin _ =>
          let s := (s.push (.fiber f) none).goto w .testing
          some (match origin with
            | .fiber => s
            | .func => s.setSpare w none)
      | _ => none
  | .recycle w =>
      match s.pc w with
      | .recycling f =>
          if (s.state f).any FiberState.resettable then some ((s.setState f .init).goto w .testing)
          else none
      | _ => none
  | .idle w quiet =>
      match s.pc w with
      | .idling =>
          some (if s.stopping && quiet then
            { s.goto w .testing with idleEnded := Function.update s.idleEnded w true }
          else s.goto w .waiting)
      | _ => none
  | .wait w =>
      match s.pc w with
      | .waiting => some (s.goto w .testing)
      | _ => none

def Step (s : State F W) (l : Label F W) (t : State F W) : Prop := s.step l = some t

/-! ### One thread for a fiber -/

/-- The worker is on the fiber's stack. -/
def Executes (s : State F W) (w : W) (f : F) : Prop :=
  ∃ stage origin k, s.pc w = .engaged stage f origin k ∧ (stage = .running ∨ stage = .yielding)

/-- The worker is in `Resume`, and not on the fiber's stack yet. -/
def Resumes (s : State F W) (w : W) (f : F) : Prop :=
  ∃ stage origin k, s.pc w = .engaged stage f origin k ∧
    (stage = .asserting ∨ stage = .executing ∨ stage = .entering)

def Resets (s : State F W) (w : W) (f : F) : Prop :=
  (∃ k, s.pc w = .resetting f k) ∨ s.pc w = .recycling f

/-- No fiber is executed by two threads, and none is resumed or reset while a thread is on its
stack. -/
structure Safe (s : State F W) : Prop where
  executed : ∀ f w w', s.Executes w f → s.Executes w' f → w = w'
  resumed : ∀ f w w', s.Resumes w f → ¬ s.Executes w' f
  reset : ∀ f w w', s.Resets w f → ¬ s.Executes w' f

end State

/-- The fiber of the task that a worker has taken, until it has switched out of it, or the one it is
about to reset. -/
def Pc.hand {F W : Type} : Pc F W → Option F
  | .selected task => task.bind Task.fiber
  | .resetting f _ | .recycling f => some f
  | .engaged stage f _ _ => if stage.inHand then some f else none
  | .testing | .selecting | .creating _ | .idling | .waiting | .left => none

/-- A callback's fiber has switched out, and its worker not seen yet how it is. -/
def Pc.unsure {F W : Type} : Pc F W → Bool
  | .engaged stage _ .func _ => !stage.inHand
  | _ => false

namespace State

variable {F W : Type} [DecidableEq F] [DecidableEq W]

/-- The worker has the fiber in hand, or keeps it for callbacks. -/
def Has (s : State F W) (w : W) (f : F) : Prop :=
  (s.pc w).hand = some f ∨ (s.spare w = some f ∧ (s.pc w).unsure = false)

instance (s : State F W) (w : W) (f : F) : Decidable (s.Has w f) :=
  inferInstanceAs (Decidable (_ ∨ _))

/-- The worker that has one more fiber after a step: it takes its task, or it keeps the fiber because
it has ended. -/
def gains (s : State F W) : Label F W → Option (W × F)
  | .select w => ((s.tasks.find? (s.eligible w)).bind Task.fiber).map (w, ·)
  | .check w =>
      match s.pc w with
      | .engaged .checking f .func _ =>
          if (s.state f).any FiberState.isTerminate then some (w, f) else none
      | _ => none
  | _ => none

/-- No other worker has the fiber then. -/
def Alone (s : State F W) (l : Label F W) : Prop :=
  ∀ p ∈ s.gains l, ∀ w, w ≠ p.1 → ¬ s.Has w p.2

instance [Fintype W] (s : State F W) (l : Label F W) : Decidable (s.Alone l) :=
  inferInstanceAs (Decidable (∀ p ∈ s.gains l, ∀ w, w ≠ p.1 → ¬ s.Has w p.2))

/-! ### What is left behind -/

/-- Every task submitted has been taken and executed. -/
def Emptied (s : State F W) : Prop :=
  s.tasks = [] ∧ ∀ k, k < s.next → s.served k = true

/-- Once `stop_` is set, a task is left in `tasks_`, or put there, only while a worker that has seen
`stop_` unset is still to look for one. -/
def Keeps (s : State F W) : Label F W → Prop
  | .stop => s.tasks = [] ∨ ∃ w, s.pc w = .selecting
  | .submit _ _ | .resubmit _ => s.stop = true → ∃ w, s.pc w = .selecting
  | .select w => s.stop = true →
      s.tasks.eraseP (s.eligible w) = [] ∨ ∃ w', w' ≠ w ∧ s.pc w' = .selecting
  | _ => True

end State

end AsyncRPC.Scheduler
