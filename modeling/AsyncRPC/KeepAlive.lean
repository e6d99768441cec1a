import AsyncRPC.TimerManager
import Mathlib.Data.List.Basic

/-!
# What keeps the scheduler running

One `CoCondVar` as far as its queue and its `timer_` go, and the timers of the `IOManager`. A call of
the condition variable is its critical section. Whoever else uses the timers may make any call on
them, but not on `timer_`, which nobody else knows. The clock does not go back; a call may use a
reading that is no longer the latest.
-/

namespace AsyncRPC.KeepAlive

def emptyCallback : Callback := 0

def uint32Max : Nat := 2 ^ 32 - 1

structure State (F : Type) where
  waitQueue : List F
  timer : Option Nat
  timers : TimerHistory
  clock : Nat

inductive Label (F : Type)
  /-- With what a new timer would be made of. -/
  | wait (f : F) (ptr now : Nat)
  /-- The fiber is `*waitQueue_.begin()`, if there is one. -/
  | notify (first : Option F)
  | notifyAll
  | timers (call : TimerCall)
  | advance (clock : Nat)
  deriving Repr, DecidableEq

/-- The timer whose method is called. -/
def on : TimerCall → Option Nat
  | .cancel id | .refresh id _ | .reset id _ _ _ => some id
  | .addTimer _ _ _ _ _ | .listOverTimeCallback _ _ => none

/-- The reading of the clock that a call uses. -/
def reading : TimerCall → Option Nat
  | .addTimer _ now _ _ _ | .refresh _ now | .reset _ _ _ now | .listOverTimeCallback now _ => some now
  | .cancel _ => none

def stopping (manager : TimerManager) (curr pendingEventCount : Nat) (schedulerStopping : Bool) :
    Bool :=
  let timeout := manager.getNextTimerTime curr
  pendingEventCount = 0 && schedulerStopping && timeout = 2 ^ 64 - 1

namespace State

variable {F : Type} [DecidableEq F]

def init : State F := { waitQueue := [], timer := none, timers := .init, clock := 0 }

/-- `if (!timer_) timer_ = addTimer(UINT32_MAX, []{}, true);` -/
def arm (s : State F) (ptr now : Nat) : Except TimerFault (State F) :=
  if s.timer.isSome then .ok s
  else do
    let id := s.timers.manager.made
    let timers ← s.timers.perform (.addTimer ptr now uint32Max (some emptyCallback) true)
    .ok { s with timer := some id, timers := timers }

/-- `if (timer_) { timer_->cancel(); timer_ = nullptr; }` -/
def disarm (s : State F) : Except TimerFault (State F) :=
  match s.timer with
  | none => .ok s
  | some id => do
      let timers ← s.timers.perform (.cancel id)
      .ok { s with timer := none, timers := timers }

def perform (s : State F) : Label F → Except TimerFault (State F)
  | .wait f ptr now => { s with waitQueue := s.waitQueue.insert f }.arm ptr now
  | .notify none => s.disarm
  | .notify (some f) => { s with waitQueue := s.waitQueue.erase f }.disarm
  | .notifyAll => { s with waitQueue := [] }.disarm
  | .timers call => do
      let timers ← s.timers.perform call
      .ok { s with timers := timers }
  | .advance clock => .ok { s with clock := clock }

def Possible (s : State F) : Label F → Prop
  | .wait _ ptr now => s.timers.Unused ptr ∧ now ≤ s.clock
  | .notify none => s.waitQueue = []
  | .notify (some f) => f ∈ s.waitQueue
  | .notifyAll => True
  | .timers call =>
      s.timers.Possible call ∧ (∀ now ∈ reading call, now ≤ s.clock) ∧ ∀ id ∈ on call, s.timer ≠ some id
  | .advance clock => s.clock ≤ clock

/-- While a fiber waits `timer_` is armed, and so the `IOManager` does not stop. -/
def Armed (s : State F) : Prop :=
  s.waitQueue ≠ [] →
    (∃ id, s.timer = some id ∧ id ∈ s.timers.manager.timers) ∧
      ∀ pendingEventCount schedulerStopping,
        stopping s.timers.manager s.clock pendingEventCount schedulerStopping = false

/-- A notification finds one waiting fiber at most. -/
def Lone (s : State F) : Label F → Prop
  | .notify _ => s.waitQueue.length ≤ 1
  | _ => True

end State

end AsyncRPC.KeepAlive
