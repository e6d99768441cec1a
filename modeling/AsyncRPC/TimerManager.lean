import AsyncRPC.Lib.OrderedSet
import AsyncRPC.Lib.Run
import AsyncRPC.Lib.Word
import Mathlib.Logic.Function.Basic

/-!
# TimerManager

The timers and the set that orders them by a field of their own. A timer is known by the number of
timers made before it, which no other timer ever has, while its address may be that of a timer long
gone. Every reading of the clock is an argument.

Of `rekeyed` the source knows nothing: it keeps the timers whose `next_` was assigned while the set
held them.
-/

namespace AsyncRPC

open Word

/-- What a `std::function` holds, if it holds anything. -/
abbrev Callback := Nat

structure Timer where
  ms : Nat
  next : Nat
  callback : Option Callback
  recurring : Bool
  ptr : Nat
  deriving Repr, DecidableEq

/-- `Timer::Comparator` -/
def Timer.less (lhs rhs : Timer) : Bool :=
  if lhs.next < rhs.next then true
  else if rhs.next < lhs.next then false
  else lhs.ptr < rhs.ptr

/-- The constructor `Timer(uint64_t next)`, whose other fields nobody reads. -/
def Timer.ofNext (next ptr : Nat) : Timer :=
  { ms := 0, next := next, callback := none, recurring := false, ptr := ptr }

structure TimerManager where
  objects : Nat → Timer
  made : Nat
  timers : List Nat
  rekeyed : List Nat

/-- `erase(end())` -/
inductive TimerFault
  | eraseEnd
  deriving Repr, DecidableEq

namespace TimerManager

def init : TimerManager :=
  { objects := fun _ => Timer.ofNext 0 0, made := 0, timers := [], rekeyed := [] }

section Steps

variable (m : TimerManager) (id : Nat)

def less (lhs rhs : Nat) : Bool := (m.objects lhs).less (m.objects rhs)

def find : Option Nat := OrderedSet.find m.less id m.timers

def insert : TimerManager := { m with timers := OrderedSet.insert m.less id m.timers }

def erase (it : Nat) : TimerManager := { m with timers := m.timers.eraseIdx it }

def setObject (timer : Timer) : TimerManager :=
  { m with objects := Function.update m.objects id timer }

def dropCallback : TimerManager := m.setObject id { m.objects id with callback := none }

def setMs (ms : Nat) : TimerManager := m.setObject id { m.objects id with ms := ms }

def setNext (next : Nat) : TimerManager :=
  { m.setObject id { m.objects id with next := next } with
    rekeyed := if id ∈ m.timers then m.rekeyed ++ [id] else m.rekeyed }

end Steps

/-- The timer is made before the lock is taken. -/
def addTimer (m : TimerManager) (ptr now ms : Nat) (callback : Option Callback) (recurring : Bool) :
    TimerManager :=
  let timer :=
    { ms := ms, next := addSize now ms, callback := callback, recurring := recurring, ptr := ptr }
  ({ m.setObject m.made timer with made := m.made + 1 } : TimerManager).insert m.made

def cancel (m : TimerManager) (id : Nat) : Except TimerFault (Bool × TimerManager) :=
  if (m.objects id).callback.isSome then
    let m := m.dropCallback id
    match m.find id with
    | none => .error .eraseEnd
    | some it => .ok (true, m.erase it)
  else .ok (false, m)

def refresh (m : TimerManager) (id now : Nat) : Bool × TimerManager :=
  if (m.objects id).callback.isNone then (false, m)
  else
    match m.find id with
    | none => (false, m)
    | some it =>
        let m := m.erase it
        let m := m.setNext id (addSize now (m.objects id).ms)
        (true, m.insert id)

def reset (m : TimerManager) (id ms : Nat) (fromNow : Bool) (now : Nat) : Bool × TimerManager :=
  if (m.objects id).ms = ms ∧ fromNow = false then (true, m)
  else if (m.objects id).callback.isNone then (false, m)
  else
    let m :=
      match m.find id with
      | none => m
      | some it => m.erase it
    let start := if fromNow then now else subSize (m.objects id).next ms
    let m := m.setMs id ms
    let m := m.setNext id (addSize start ms)
    (true, m.insert id)

/-- The comparison keeps the difference from wrapping. -/
def getNextTimerTime (m : TimerManager) (curr : Nat) : Nat :=
  match m.timers with
  | [] => 2 ^ 64 - 1
  | id :: _ => if (m.objects id).next ≤ curr then 0 else (m.objects id).next - curr

/-- The timers before `upper_bound` of a new timer for the present. -/
def expired (m : TimerManager) (curr ptr : Nat) : List Nat :=
  m.timers.take (OrderedSet.upperBound (fun id => (Timer.ofNext curr ptr).less (m.objects id)) m.timers)

/-- What the loop over the expired timers does with one of them, but for `cb`. -/
def settle (curr : Nat) (m : TimerManager) (id : Nat) : TimerManager :=
  if (m.objects id).recurring then
    (m.setNext id (addSize curr (m.objects id).ms)).insert id
  else m.dropCallback id

def settleAll (curr : Nat) : List Nat → List (Option Callback) → TimerManager →
    List (Option Callback) × TimerManager
  | [], cb, m => (cb, m)
  | id :: expired, cb, m =>
      settleAll curr expired (cb ++ [(m.objects id).callback]) (m.settle curr id)

/-- `listOverTimeCallback`, which appends to `cb`. -/
def listOverTimeCallback (m : TimerManager) (curr ptr : Nat) (cb : List (Option Callback)) :
    List (Option Callback) × TimerManager :=
  if m.timers.isEmpty then (cb, m)
  else
    let expired := m.expired curr ptr
    let m := { m with timers := m.timers.drop expired.length }
    settleAll curr expired cb m

/-- A pass at a reading of the clock collects the callbacks of just the timers that are due by then, in
the order of their deadlines, and some if the next timer is said to be due. -/
structure CollectsDue (m : TimerManager) (curr : Nat) (cb cb' : List (Option Callback)) : Prop where
  due : ∃ ids : List Nat, cb' = cb ++ ids.map (fun id => (m.objects id).callback) ∧ ids.Nodup ∧
    (ids.Pairwise fun a b => (m.objects a).next ≤ (m.objects b).next) ∧
    ∀ id, id ∈ ids ↔ id ∈ m.timers ∧ (m.objects id).next ≤ curr
  prompt : m.getNextTimerTime curr = 0 → cb.length < cb'.length

/-- The timer has a new interval and a new deadline, and its place in the set, and all else of the
timers is as it was. -/
structure MovedTo (m : TimerManager) (id ms next : Nat) (m' : TimerManager) : Prop where
  object : m'.objects id = { m.objects id with ms := ms, next := next }
  others : ∀ other, other ≠ id → m'.objects other = m.objects other
  mem : ∀ other, other ∈ m'.timers ↔ other ∈ m.timers
  placed : id ∈ m'.timers
  sorted : m'.timers.Pairwise fun a b => m'.less a b = true

/-- `reset` keeps the start of the period, or starts it now, and leaves a timer alone that is done. -/
def Resets (m : TimerManager) (id ms : Nat) (fromNow : Bool) (now : Nat) : Prop :=
  let timer := m.objects id
  let start := if fromNow then now else subSize timer.next timer.ms
  if timer.callback.isSome then
    (m.reset id ms fromNow now).1 = true ∧
      m.MovedTo id ms (addSize start ms) (m.reset id ms fromNow now).2
  else m.reset id ms fromNow now = (false, m)

end TimerManager

/-! ### What becomes of the timers -/

/-- A public call, with the addresses that `new` returns and the clock it reads. -/
inductive TimerCall
  | addTimer (ptr now ms : Nat) (callback : Option Callback) (recurring : Bool)
  | cancel (id : Nat)
  | refresh (id now : Nat)
  | reset (id ms : Nat) (fromNow : Bool) (now : Nat)
  | listOverTimeCallback (curr ptr : Nat)
  deriving Repr, DecidableEq

/-- A `cancel` that returned true, or a callback collected at a reading of the clock, with the
`next_` that its timer had. -/
inductive TimerEvent
  | cancelled (id : Nat)
  | collected (id curr next : Nat)
  deriving Repr, DecidableEq

def TimerEvent.Collects (id : Nat) : TimerEvent → Prop
  | .cancelled _ => False
  | .collected id' _ _ => id' = id

structure TimerHistory where
  manager : TimerManager
  log : List TimerEvent

namespace TimerHistory

def init : TimerHistory := { manager := .init, log := [] }

def perform (h : TimerHistory) : TimerCall → Except TimerFault TimerHistory
  | .addTimer ptr now ms callback recurring =>
      .ok { h with manager := h.manager.addTimer ptr now ms callback recurring }
  | .cancel id => do
      let (answer, manager) ← h.manager.cancel id
      .ok { manager := manager, log := if answer then h.log ++ [.cancelled id] else h.log }
  | .refresh id now => .ok { h with manager := (h.manager.refresh id now).2 }
  | .reset id ms fromNow now => .ok { h with manager := (h.manager.reset id ms fromNow now).2 }
  | .listOverTimeCallback curr ptr =>
      .ok
        { manager := (h.manager.listOverTimeCallback curr ptr []).2
          log := h.log ++ (h.manager.expired curr ptr).map fun id =>
            .collected id curr (h.manager.objects id).next }

/-- The address is none of those that the timers in the set are at. -/
def Unused (h : TimerHistory) (ptr : Nat) : Prop :=
  ∀ id ∈ h.manager.timers, (h.manager.objects id).ptr ≠ ptr

/-- A call that can be made: `new` returns memory that is not in use, a callback is not null, and the
timer of a method was made before. -/
def Possible (h : TimerHistory) : TimerCall → Prop
  | .addTimer ptr _ _ callback _ => h.Unused ptr ∧ callback.isSome
  | .cancel id | .refresh id _ | .reset id _ _ _ => id < h.manager.made
  | .listOverTimeCallback _ ptr => h.Unused ptr

def Reached (h : TimerHistory) : Prop :=
  Transition.Reachable (Transition.Guarded Possible fun h call h' => h.perform call = .ok h')
    (· = init) h

/-- What the set is relied on for. -/
structure Sound (h : TimerHistory) : Prop where
  sorted : h.manager.timers.Pairwise fun a b => h.manager.less a b = true
  not_rekeyed : h.manager.rekeyed = []
  armed : ∀ id, (h.manager.objects id).callback.isSome ↔ id ∈ h.manager.timers
  once : ∀ id, (h.manager.objects id).recurring = false →
    h.log.Pairwise fun e f => ¬ (e.Collects id ∧ f.Collects id)
  due : ∀ id curr next, .collected id curr next ∈ h.log → next ≤ curr
  cancelled : ∀ id, h.log.Pairwise fun e f => ¬ (e = .cancelled id ∧ f.Collects id)
  /-- A pass hands out the callbacks of the timers that it logs. -/
  handed : ∀ curr ptr cb, (h.manager.listOverTimeCallback curr ptr cb).1
    = cb ++ (h.manager.expired curr ptr).map fun id => (h.manager.objects id).callback

end TimerHistory

end AsyncRPC
