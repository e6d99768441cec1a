import AsyncRPC.Lib.OrderedSet
import AsyncRPC.Lib.Run

/-!
# The wait queue of CoCondVar

`waitQueue_` is a `std::set` of pointers, so a fiber's place in it is given by its address; `CoCondVar`
leaves open whose turn it is. A call is one critical section under `mutex_`, and what it submits to the
scheduler. `Fiber::GetThis()` is never null; `timer_` only keeps the scheduler running and is left out.
-/

namespace AsyncRPC.WaitQueue

open Transition

structure State (F : Type) where
  /-- `waitQueue_` in the order of iteration. -/
  waitQueue : List F
  /-- The same fibers as they came. The code keeps no such record. -/
  arrived : List F
  /-- The fibers submitted to the scheduler, oldest first. -/
  submitted : List F
  deriving Repr, DecidableEq

inductive Call (F : Type)
  /-- Either `wait`; the lock of the caller is left to it. -/
  | wait (fiber : F)
  | notify
  | notifyAll
  deriving Repr, DecidableEq

variable {F : Type} [DecidableEq F] (address : F → Nat)

/-- `std::less` on two pointers. -/
def less (x y : F) : Bool := decide (address x < address y)

namespace State

def init : State F := { waitQueue := [], arrived := [], submitted := [] }

def wait (s : State F) (fiber : F) : State F :=
  { s with
    waitQueue := OrderedSet.insert (less address) fiber s.waitQueue
    arrived := s.arrived ++ [fiber] }

/-- The first element is taken, erased and submitted. -/
def notify (s : State F) : State F :=
  match s.waitQueue with
  | [] => s
  | fiber :: rest =>
      { waitQueue := rest
        arrived := s.arrived.erase fiber
        submitted := s.submitted ++ [fiber] }

def notifyAll (s : State F) : State F :=
  { waitQueue := [], arrived := [], submitted := s.submitted ++ s.waitQueue }

def step (s : State F) : Call F → State F
  | .wait fiber => s.wait address fiber
  | .notify => s.notify
  | .notifyAll => s.notifyAll

/-- A fiber that waits is suspended, so it does not wait twice at a time. -/
def Possible (s : State F) : Call F → Prop
  | .wait fiber => fiber ∉ s.arrived
  | .notify | .notifyAll => True

/-- A `notify` that finds a waiter submits the one that has been waiting longest. -/
def WakesOldest (s : State F) : Call F → Prop
  | .wait _ | .notifyAll => True
  | .notify => ∀ oldest rest, s.arrived = oldest :: rest →
      s.notify.submitted = s.submitted ++ [oldest]

/-- At a `notify` the fiber that has been waiting longest has the lowest address of all that wait. -/
def OldestIsLowest (s : State F) : Call F → Prop
  | .wait _ | .notifyAll => True
  | .notify => ∀ oldest rest, s.arrived = oldest :: rest →
      ∀ fiber ∈ rest, address oldest < address fiber

end State

end AsyncRPC.WaitQueue
