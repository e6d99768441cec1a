import AsyncRPC.Channel
import AsyncRPC.CoCondVar

/-!
# The queue of a channel

One `ChannelImpl` whose `mutex_` excludes, as far as its queue goes: every call with its tests and
waits, and both condition variables with all their steps. The first critical section of a wait is one
step, in which the fiber is put into the queue and `mutex_` given up; its second one ends when the
fiber has `mutex_` again. A call completes when it gives up `mutex_` for the last time.
-/

namespace AsyncRPC.ChannelQueue

open Channel (Op Side)

inductive Result (M : Type)
  | pushed (t : M)
  | popped (t : M)
  | failed
  | closed
  deriving Repr, DecidableEq

/-- What a call comes to that finds the channel closed. -/
def refused {M : Type} : Op M → Result M
  | .push _ | .pop | .waitFor _ => .failed
  | .close => .closed

def Result.returned {M : Type} : Result M → Option Bool
  | .pushed _ | .popped _ => some true
  | .failed => some false
  | .closed => none

/-- The condition variable that a call notifies once it has used the queue. -/
def Result.notifies {M : Type} : Result M → Side
  | .pushed _ => .popCv
  | .popped _ | .failed | .closed => .pushCv

inductive Pc (F M : Type)
  | idle
  | locking (op : Op M)
  | entered (op : Op M)
  /-- In `wait` or `waitFor`, without `mutex_`; the ticket is that of the wait. -/
  | waiting (op : Op M) (k : Nat)
  | returning (op : Op M) (k : Nat) (result : Bool)
  /-- The wait is over, before the tests. -/
  | woken (op : Op M) (k : Nat)
  | notifying (result : Result M)
  | submitting (result : Result M) (p : F × Option Nat)
  | notifyingAll (side : Side)
  | swapping
  | unlocking (result : Result M)
  deriving Repr, DecidableEq

def Pc.holds {F M : Type} : Pc F M → Bool
  | .idle | .locking _ | .waiting _ _ => false
  | .entered _ | .returning _ _ _ | .woken _ _ | .notifying _ | .submitting _ _ | .notifyingAll _
  | .swapping | .unlocking _ => true

structure State (F M : Type) where
  mutex : Option F
  cv : Side → CoCondVar.State F
  isClosed : Bool
  capacity : Nat
  msgQueue : List M
  pc : F → Pc F M
  returned : F → Option Bool
  /-- `isClosed_` when a fiber last took `mutex_`. The code keeps none of these three. -/
  late : F → Bool
  /-- The values of the calls that succeeded, in the order in which they completed. -/
  pushed : List M
  popped : List M

structure New {F M : Type} (s : State F M) : Prop where
  mutex : s.mutex = none
  cv : ∀ side, CoCondVar.New (s.cv side)
  isClosed : s.isClosed = false
  msgQueue : s.msgQueue = []
  pc : ∀ f, s.pc f = .idle
  returned : ∀ f, s.returned f = none
  pushed : s.pushed = []
  popped : s.popped = []

inductive Label (F M : Type)
  | call (f : F) (op : Op M)
  | lock (f : F)
  | test (f : F)
  /-- A step of a condition variable by itself. -/
  | cv (side : Side) (l : CoCondVar.Label F)
  | resume (f : F) (side : Side)
  /-- `wait` takes `mutex_` back and returns. -/
  | retake (f : F)
  | finish (f : F)
  | leave (f : F)
  /-- `notify`, in which the fiber is `*waitQueue_.begin()`, if there is one. -/
  | notify (f : F) (first : Option F)
  | submit (f : F)
  | notifyAll (f : F)
  | swap (f : F)
  | unlock (f : F)
  deriving Repr, DecidableEq

/-- What happens to a condition variable without a call of `notify` and away from `mutex_`. -/
def ofItself {F : Type} : CoCondVar.Label F → Bool
  | .yield _ | .relock _ | .expire _ | .onTimer _ | .callback _ => true
  | .wait _ | .waitFor _ | .resume _ | .finish _ | .leave _ | .notify _ | .submit _ | .notifyAll => false

def other : Side → Side
  | .pushCv => .popCv
  | .popCv => .pushCv

namespace State

variable {F M : Type} [DecidableEq F]

def goto (s : State F M) (f : F) (pc : Pc F M) : State F M :=
  { s with pc := Function.update s.pc f pc }

def setCv (s : State F M) (side : Side) (cv : CoCondVar.State F) : State F M :=
  { s with cv := Function.update s.cv side cv }

def stepCv (s : State F M) (side : Side) (l : CoCondVar.Label F) : Option (State F M) :=
  ((s.cv side).step l).map (s.setCv side)

def take (s : State F M) (f : F) : Option (State F M) :=
  if s.mutex = none then
    some { s with mutex := some f, late := Function.update s.late f s.isClosed }
  else none

def beginWait (s : State F M) (f : F) (op : Op M) : Option (State F M) := do
  let k := (s.cv op.waitsOn).next
  let s ← s.stepCv op.waitsOn (if op.timed then .waitFor f else .wait f)
  some { s.goto f (.waiting op k) with mutex := none }

def test (s : State F M) (f : F) (op : Op M) : Option (State F M) :=
  if s.isClosed then some (s.goto f (.unlocking (refused op)))
  else
    match op with
    | .push t =>
        if s.capacity ≤ s.msgQueue.length then s.beginWait f op
        else some { s.goto f (.notifying (.pushed t)) with msgQueue := s.msgQueue ++ [t] }
    | .pop | .waitFor _ =>
        match s.msgQueue with
        | [] => s.beginWait f op
        | t :: rest => some { s.goto f (.notifying (.popped t)) with msgQueue := rest }
    | .close => some { s.goto f (.notifyingAll .pushCv) with isClosed := true }

def resume (s : State F M) (f : F) (side : Side) : Option (State F M) :=
  match (s.cv (other side)).pc f with
  | .parked k =>
      if f ∈ (s.cv side).ready then
        let cv := { s.cv side with ready := (s.cv side).ready.erase f }
        some ((s.setCv side cv).setCv (other side) ((s.cv (other side)).goto f (.resumed k)))
      else none
  | _ => s.stepCv side (.resume f)

def unlock (s : State F M) (f : F) (result : Result M) : State F M :=
  { s.goto f .idle with
    mutex := none
    returned := Function.update s.returned f result.returned
    pushed := match result with
      | .pushed t => s.pushed ++ [t]
      | _ => s.pushed
    popped := match result with
      | .popped t => s.popped ++ [t]
      | _ => s.popped }

def step (s : State F M) : Label F M → Option (State F M)
  | .call f op =>
      match s.pc f with
      | .idle =>
          some { s.goto f (.locking op) with returned := Function.update s.returned f none }
      | _ => none
  | .lock f =>
      match s.pc f with
      | .locking op => (s.goto f (.entered op)).take f
      | _ => none
  | .test f =>
      match s.pc f with
      | .entered op | .woken op _ => s.test f op
      | _ => none
  | .cv side l => if ofItself l then s.stepCv side l else none
  | .resume f side => s.resume f side
  | .retake f =>
      match s.pc f with
      | .waiting op k => do
          let s ← s.stepCv op.waitsOn (.leave f)
          (s.goto f (.woken op k)).take f
      | _ => none
  | .finish f =>
      match s.pc f with
      | .waiting op k => do
          let result := !((s.cv op.waitsOn).waits k).any CoCondVar.Wait.timeCondition
          let s ← s.stepCv op.waitsOn (.finish f)
          (s.goto f (.returning op k result)).take f
      | _ => none
  | .leave f =>
      match s.pc f with
      | .returning op k result => do
          let s ← s.stepCv op.waitsOn (.leave f)
          some (s.goto f (if result then .woken op k else .unlocking .failed))
      | _ => none
  | .notify f first =>
      match s.pc f with
      | .notifying result =>
          let side := result.notifies
          match first with
          | none =>
              if (s.cv side).mutex = false ∧ (s.cv side).waitQueue = [] then
                some (s.goto f (.unlocking result))
              else none
          | some g => do
              let p := (g, ((s.cv side).pc g).ticket)
              let s ← s.stepCv side (.notify g)
              some (s.goto f (.submitting result p))
      | _ => none
  | .submit f =>
      match s.pc f with
      | .submitting result p => do
          let s ← s.stepCv result.notifies (.submit p)
          some (s.goto f (.unlocking result))
      | _ => none
  | .notifyAll f =>
      match s.pc f with
      | .notifyingAll side => do
          let s ← s.stepCv side .notifyAll
          some (s.goto f (match side with
            | .pushCv => .notifyingAll .popCv
            | .popCv => .swapping))
      | _ => none
  | .swap f =>
      match s.pc f with
      | .swapping => some { s.goto f (.unlocking .closed) with msgQueue := [] }
      | _ => none
  | .unlock f =>
      match s.pc f with
      | .unlocking result => some (s.unlock f result)
      | _ => none

def Step (s : State F M) (l : Label F M) (t : State F M) : Prop := s.step l = some t

/-- The queue keeps to its capacity, what came out is what went in, and no call that has taken
`mutex_` after `close` has set `isClosed_` succeeds. -/
structure Safe (s : State F M) : Prop where
  bounded : s.msgQueue.length ≤ s.capacity
  inOrder : s.popped <+: s.pushed
  closed : ∀ f, s.returned f = some true → s.late f = false

/-! ### Messages and notifications -/

/-- `notify` has taken the fiber of a wait for a message from the queue. -/
def notified (s : State F M) (k : Nat) : Bool :=
  ((s.cv .popCv).waits k).any CoCondVar.Wait.notified

/-- The fiber was notified, and will look at the queue before its call returns. -/
def Examines (s : State F M) (f : F) : Prop :=
  match s.pc f with
  | .waiting op k => op.waitsOn = .popCv ∧ s.notified k = true ∧
      ((s.cv .popCv).waits k).any CoCondVar.Wait.timeCondition = false
  | .returning op k result => op.waitsOn = .popCv ∧ s.notified k = true ∧ result = true
  | .woken op k => op.waitsOn = .popCv ∧ s.notified k = true
  | _ => False

/-- One while a `push` has put its message in and not called `popCv_.notify` yet. -/
def announced (s : State F M) : Nat :=
  match s.mutex with
  | none => 0
  | some f =>
      match s.pc f with
      | .notifying (.pushed _) => 1
      | _ => 0

/-- As long as a fiber waits for a message, every message has a notified fiber of its own that will
look for it, or is just about to have one. -/
def NotStranded (s : State F M) : Prop :=
  s.isClosed = false → s.msgQueue ≠ [] → (s.cv .popCv).waitQueue ≠ [] →
    ∃ fibers : List F, fibers.Nodup ∧ (∀ f ∈ fibers, s.Examines f) ∧
      s.msgQueue.length ≤ fibers.length + s.announced

/-- The callback of a timer runs only while its fiber is still in the queue it was set for. -/
def InTime (s : State F M) : Label F M → Prop
  | .cv side l => (s.cv side).InTime l
  | _ => True

instance (s : State F M) : (l : Label F M) → Decidable (s.InTime l)
  | .cv side l => inferInstanceAs (Decidable ((s.cv side).InTime l))
  | .call _ _ | .lock _ | .test _ | .resume _ _ | .retake _ | .finish _ | .leave _ | .notify _ _
  | .submit _ | .notifyAll _ | .swap _ | .unlock _ => inferInstanceAs (Decidable True)

end State

end AsyncRPC.ChannelQueue
