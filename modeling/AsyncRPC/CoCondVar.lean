import AsyncRPC.Lib.Run
import Mathlib.Logic.Function.Basic

/-!
# CoCondVar

One `CoCondVar`, the fibers that wait on it, and the timers of `waitFor`. A step is a critical section
under the spin lock `mutex_`, or what a fiber, the timer manager or the scheduler does between two of
them. Every call of `wait` or `waitFor` has a ticket. The mutex that the waiting fiber gives up and
takes back is left to it; only that `waitFor` takes it back inside a critical section is kept.

`timer_` has an empty callback and only keeps the scheduler running.
-/

namespace AsyncRPC.CoCondVar

inductive Timer
  /-- There is none, it was cancelled, or its callback has run. -/
  | gone
  | armed
  /-- `listOverTimeCallback` has taken the callback and it was submitted. -/
  | collected
  /-- `onTimer` has locked `weak_cond` and called the callback. -/
  | running
  deriving Repr, DecidableEq

structure Wait (F : Type) where
  fiber : F
  timed : Bool
  timer : Timer
  timeCondition : Bool
  /-- The frame that owns `timeCondtion` is there. -/
  alive : Bool
  /-- `notify` or `notifyAll` took the fiber from the queue. -/
  notified : Bool
  submitted : Nat
  returned : Option Bool
  deriving Repr, DecidableEq

inductive Pc
  | idle
  | inserted (k : Nat)
  | parked (k : Nat)
  | resumed (k : Nat)
  /-- In the second critical section of `waitFor`. -/
  | relocking (k : Nat)
  | leaving (k : Nat) (result : Bool)
  deriving Repr, DecidableEq

def Pc.ticket : Pc → Option Nat
  | .idle => none
  | .inserted k | .parked k | .resumed k | .relocking k | .leaving k _ => some k

structure State (F : Type) where
  mutex : Bool
  waitQueue : List F
  ready : List F
  /-- What calls of `notify` have taken from the queue and not submitted yet. -/
  pending : List (F × Option Nat)
  waits : Nat → Option (Wait F)
  next : Nat
  pc : F → Pc

structure New {F : Type} (s : State F) : Prop where
  mutex : s.mutex = false
  waitQueue : s.waitQueue = []
  ready : s.ready = []
  pending : s.pending = []
  waits : ∀ k, s.waits k = none
  pc : ∀ f, s.pc f = .idle

inductive Label (F : Type)
  | wait (f : F)
  | waitFor (f : F)
  | yield (f : F)
  | resume (f : F)
  | relock (f : F)
  | finish (f : F)
  | leave (f : F)
  /-- `*waitQueue_.begin()` is the fiber with the least address, whichever that is. -/
  | notify (f : F)
  | submit (p : F × Option Nat)
  | notifyAll
  | expire (k : Nat)
  | onTimer (k : Nat)
  | callback (k : Nat)
  deriving Repr, DecidableEq

namespace State

variable {F : Type} [DecidableEq F]

def goto (s : State F) (f : F) (pc : Pc) : State F :=
  { s with pc := Function.update s.pc f pc }

def modify (s : State F) (k : Nat) (change : Wait F → Wait F) : State F :=
  { s with waits := Function.update s.waits k ((s.waits k).map change) }

def insert (s : State F) (f : F) (timed : Bool) : State F :=
  { s.goto f (.inserted s.next) with
    waitQueue := s.waitQueue.insert f
    waits := Function.update s.waits s.next (some
      { fiber := f, timed := timed, timer := if timed then .armed else .gone, timeCondition := false,
        alive := true, notified := false, submitted := 0, returned := none })
    next := s.next + 1 }

/-- `if (timer && !(*timeCondtion)) timer->cancel();` -/
def cancel (w : Wait F) : Wait F :=
  if w.timeCondition = false ∧ w.timer = .armed then { w with timer := .gone } else w

def take (s : State F) (f : F) : State F :=
  let s := { s with waitQueue := s.waitQueue.erase f }
  match (s.pc f).ticket with
  | none => s
  | some k => s.modify k fun w => { w with notified := true }

/-- `IOManager::GetThis()->Submit(fiber)`, for the wait with a ticket. -/
def submit (s : State F) (f : F) (ticket : Option Nat) : State F :=
  let s := { s with ready := s.ready ++ [f] }
  match ticket with
  | none => s
  | some k => s.modify k fun w => { w with submitted := w.submitted + 1 }

def wake (s : State F) (f : F) : State F := (s.take f).submit f (s.pc f).ticket

def callback (s : State F) (k : Nat) (w : Wait F) : State F :=
  let s := s.modify k fun w => { w with timeCondition := true, timer := .gone }
  { s with waitQueue := s.waitQueue.erase w.fiber }.submit w.fiber (some k)

def step (s : State F) : Label F → Option (State F)
  | .wait f => if s.pc f = .idle ∧ s.mutex = false then some (s.insert f false) else none
  | .waitFor f => if s.pc f = .idle ∧ s.mutex = false then some (s.insert f true) else none
  | .yield f =>
      match s.pc f with
      | .inserted k => some (s.goto f (.parked k))
      | _ => none
  | .resume f =>
      if f ∈ s.ready then
        let s := { s with ready := s.ready.erase f }
        match s.pc f with
        | .parked k => some (s.goto f (.resumed k))
        -- a fiber that is running is not taken
        | .inserted _ => none
        -- suspended somewhere else
        | _ => some s
      else none
  | .relock f =>
      match s.pc f with
      | .resumed k =>
          if (s.waits k).any Wait.timed ∧ s.mutex = false then
            some { (s.goto f (.relocking k)).modify k cancel with mutex := true }
          else none
      | _ => none
  | .finish f =>
      match s.pc f with
      | .relocking k =>
          let result := !(s.waits k).any Wait.timeCondition
          some { s.goto f (.leaving k result) with mutex := false }
      | _ => none
  | .leave f =>
      match s.pc f with
      | .resumed k =>
          if (s.waits k).any Wait.timed then none
          else some ((s.goto f .idle).modify k fun w => { w with alive := false, returned := some true })
      | .leaving k result =>
          some ((s.goto f .idle).modify k fun w => { w with alive := false, returned := some result })
      | _ => none
  | .notify f =>
      if s.mutex = false ∧ f ∈ s.waitQueue then
        some { s.take f with pending := s.pending ++ [(f, (s.pc f).ticket)] }
      else none
  | .submit p =>
      if p ∈ s.pending then some ({ s with pending := s.pending.erase p }.submit p.1 p.2) else none
  | .notifyAll => if s.mutex = false then some (s.waitQueue.foldl wake s) else none
  | .expire k =>
      if (s.waits k).any fun w => w.timer = .armed then
        some (s.modify k fun w => { w with timer := .collected })
      else none
  | .onTimer k =>
      if (s.waits k).any fun w => w.timer = .collected then
        some (s.modify k fun w => { w with timer := if w.alive then .running else .gone })
      else none
  | .callback k =>
      match s.waits k with
      | some w => if w.timer = .running ∧ s.mutex = false then some (s.callback k w) else none
      | none => none

def Step (s : State F) (l : Label F) (t : State F) : Prop := s.step l = some t

/-- No wait has its fiber submitted twice, and one that ended by a notification did not time out. -/
structure OneWakeup (s : State F) : Prop where
  once : ∀ k w, s.waits k = some w → w.submitted ≤ 1
  notified : ∀ k w result, s.waits k = some w → w.notified = true → w.returned = some result →
    result = true

/-- The callback of a timer runs only while its fiber is still in the queue, for the wait the timer
was set for. -/
def InTime (s : State F) : Label F → Prop
  | .callback k => ∀ w ∈ s.waits k, w.fiber ∈ s.waitQueue ∧ (s.pc w.fiber).ticket = some k
  | _ => True

instance (s : State F) : (l : Label F) → Decidable (s.InTime l)
  | .callback k => inferInstanceAs (Decidable
      (∀ w ∈ s.waits k, w.fiber ∈ s.waitQueue ∧ (s.pc w.fiber).ticket = some k))
  | .wait _ | .waitFor _ | .yield _ | .resume _ | .relock _ | .finish _ | .leave _ | .notify _
  | .submit _ | .notifyAll | .expire _ | .onTimer _ => inferInstanceAs (Decidable True)

end State

end AsyncRPC.CoCondVar
