import AsyncRPC.CoMutex

/-!
# Channel

One `ChannelImpl` with everything below it: the steps of its `CoMutex`, and the critical sections of
the two condition variables under their spin locks, of which `wait` and `waitFor` leave and take the
mutex inside. A fiber in a call of the mutex takes the mutex's next step; otherwise it takes the next
step of its own.

The timer of a `waitFor` may fire, once, at any time until `timeCondtion` is gone. `waitFor(-1)` is
`wait`.
-/

namespace AsyncRPC.Channel

open CoMutex (This)

inductive Op (M : Type)
  | push (t : M)
  | pop
  | waitFor (timed : Bool)
  | close
  deriving Repr, DecidableEq

inductive Side
  | pushCv
  | popCv
  deriving Repr, DecidableEq

def Op.waitsOn {M : Type} : Op M → Side
  | .push _ => .pushCv
  | .pop | .waitFor _ | .close => .popCv

def Op.timed {M : Type} : Op M → Bool
  | .waitFor timed => timed
  | _ => false

/-- Where a fiber is in its call, once the mutex's call it has made is over. -/
inductive Pc (F M : Type)
  | idle
  | entered (op : Op M)
  | inserted (op : Op M)
  | yielding (op : Op M)
  | parked (op : Op M)
  | woken (op : Op M)
  | relocked (op : Op M)
  /-- `CoCondVar::waitFor` returns; its spin lock is free and `timeCondtion` not gone yet. -/
  | returning (op : Op M) (result : Bool)
  | notifying (side : Side)
  | submitting (next : Option F)
  | notifyingAll (side : Side)
  | leaving
  deriving Repr, DecidableEq

def Pc.isRelocked {F M : Type} : Pc F M → Bool
  | .relocked _ => true
  | _ => false

structure CondVar (F : Type) where
  owner : Option F
  waitQueue : List F

structure State (F M : Type) where
  mutex : CoMutex.State F
  cv : Side → CondVar F
  isClosed : Bool
  capacity : Nat
  msgQueue : List M
  pc : F → Pc F M
  /-- `*timeCondtion` of a fiber's last `waitFor`. -/
  timeCondition : F → Bool
  returned : F → Option Bool
  out : F → Option M

structure New {F M : Type} (s : State F M) : Prop where
  mutex : CoMutex.Free s.mutex
  owner : ∀ side, (s.cv side).owner = none
  waitQueue : ∀ side, (s.cv side).waitQueue = []
  isClosed : s.isClosed = false
  msgQueue : s.msgQueue = []
  pc : ∀ f, s.pc f = .idle

inductive Label (F M : Type)
  | call (f : F) (op : Op M)
  /-- The next step of a fiber; in `notify`, the fiber that is `*waitQueue_.begin()`. -/
  | advance (f : F) (first : Option F)
  | resume (f : F)
  | timeout (f : F)
  deriving Repr, DecidableEq

namespace State

variable {F M : Type} [DecidableEq F] (this : F → This)

def goto (s : State F M) (f : F) (pc : Pc F M) : State F M :=
  { s with pc := Function.update s.pc f pc }

def setCv (s : State F M) (side : Side) (cv : CondVar F) : State F M :=
  { s with cv := Function.update s.cv side cv }

def callMutex (s : State F M) (l : CoMutex.Label F) : Option (State F M) :=
  (s.mutex.step this l).map fun mutex => { s with mutex := mutex }

/-- The call returns as soon as `~ScopedLock` has unlocked. -/
def leave (s : State F M) (f : F) (result : Bool) : Option (State F M) :=
  callMutex this { s.goto f .leaving with returned := Function.update s.returned f (some result) }
    (.unlock f)

def beginWait (s : State F M) (f : F) (op : Op M) : Option (State F M) :=
  let cv := s.cv op.waitsOn
  if cv.owner = none then
    let s := { s.goto f (.inserted op) with
      timeCondition := if op.timed then Function.update s.timeCondition f false else s.timeCondition }
    callMutex this (s.setCv op.waitsOn { owner := some f, waitQueue := cv.waitQueue.insert f })
      (.unlock f)
  else none

def test (s : State F M) (f : F) (op : Op M) : Option (State F M) :=
  if s.isClosed then s.leave this f (match op with | .close => true | _ => false)
  else
    match op with
    | .push t =>
        if s.capacity ≤ s.msgQueue.length then s.beginWait this f op
        else some { s.goto f (.notifying .popCv) with msgQueue := s.msgQueue ++ [t] }
    | .pop | .waitFor _ =>
        match s.msgQueue with
        | [] => s.beginWait this f op
        | t :: rest =>
            some { s.goto f (.notifying .pushCv) with
                   msgQueue := rest, out := Function.update s.out f (some t) }
    | .close => some { s.goto f (.notifyingAll .pushCv) with isClosed := true }

def notifyAll (s : State F M) (side : Side) : State F M :=
  { s.setCv side { s.cv side with waitQueue := [] } with
    mutex := { s.mutex with ready := s.mutex.ready ++ (s.cv side).waitQueue } }

def exec (s : State F M) (f : F) (first : Option F) : Option (State F M) :=
  match s.pc f with
  | .idle | .parked _ => none
  | .entered op => s.test this f op
  | .inserted op =>
      some ((s.goto f (.yielding op)).setCv op.waitsOn { s.cv op.waitsOn with owner := none })
  | .yielding op =>
      match this f with
      | .none => none
      | .main _ => some (s.goto f (.woken op))
      | .fiber _ => some (s.goto f (.parked op))
  | .woken op =>
      if op.timed then
        if (s.cv op.waitsOn).owner = none then
          callMutex this ((s.goto f (.relocked op)).setCv op.waitsOn
            { s.cv op.waitsOn with owner := some f }) (.lock f)
        else none
      else callMutex this (s.goto f (.entered op)) (.lock f)
  | .relocked op =>
      some ((s.goto f (.returning op (!s.timeCondition f))).setCv op.waitsOn
        { s.cv op.waitsOn with owner := none })
  | .returning op result => if result then some (s.goto f (.entered op)) else s.leave this f false
  | .notifying side =>
      if (s.cv side).owner = none then
        match first with
        | none => if (s.cv side).waitQueue = [] then some (s.goto f (.submitting none)) else none
        | some g =>
            if g ∈ (s.cv side).waitQueue then
              some ((s.goto f (.submitting (some g))).setCv side
                { s.cv side with waitQueue := (s.cv side).waitQueue.erase g })
            else none
      else none
  | .submitting next =>
      leave this { s with mutex := { s.mutex with ready := s.mutex.ready ++ next.toList } } f true
  | .notifyingAll .pushCv =>
      if (s.cv .pushCv).owner = none then
        some ((s.notifyAll .pushCv).goto f (.notifyingAll .popCv))
      else none
  | .notifyingAll .popCv =>
      if (s.cv .popCv).owner = none then
        leave this { s.notifyAll .popCv with msgQueue := [] } f true
      else none
  | .leaving => some (s.goto f .idle)

def step (s : State F M) : Label F M → Option (State F M)
  | .call f op =>
      match s.pc f with
      | .idle => callMutex this (s.goto f (.entered op)) (.lock f)
      | _ => none
  | .advance f first =>
      if s.mutex.pc f = .idle then s.exec this f first else s.callMutex this (.advance f)
  | .resume f =>
      match s.pc f with
      | .parked op =>
          if f ∈ s.mutex.ready then
            some { s.goto f (.woken op) with
                   mutex := { s.mutex with ready := s.mutex.ready.erase f } }
          else none
      | _ => s.callMutex this (.resume f)
  | .timeout f =>
      match s.pc f with
      | .inserted op | .yielding op | .parked op | .woken op | .relocked op | .returning op _ =>
          let cv := s.cv op.waitsOn
          if op.timed ∧ s.timeCondition f = false ∧ cv.owner = none then
            some { s.setCv op.waitsOn { cv with waitQueue := cv.waitQueue.erase f } with
                   timeCondition := Function.update s.timeCondition f true
                   mutex := { s.mutex with ready := s.mutex.ready ++ [f] } }
          else none
      | _ => none

def Step (s : State F M) (l : Label F M) (t : State F M) : Prop := s.step this l = some t

def Parked (s : State F M) (f : F) : Prop := s.mutex.pc f = .parked ∨ ∃ op, s.pc f = .parked op

/-- Between `lock` and `unlock` of a spin lock: of `guard_`, or of a condition variable. -/
def Spins (s : State F M) (f : F) : Prop :=
  (s.mutex.pc f).hasGuard = true ∨ ∃ side, (s.cv side).owner = some f

def NoParkedSpinner (s : State F M) : Prop := ∀ f, s.Parked f → ¬ s.Spins f

/-- A `waitFor` with a timeout, when it takes the mutex back, finds it free at its second `trylock` if
not at the first. -/
def Relocks (s : State F M) : Label F M → Prop
  | .advance f _ =>
      (s.pc f).isRelocked = true → s.mutex.pc f = .tryInner → s.mutex.mutex = false
  | _ => True

instance (s : State F M) : (l : Label F M) → Decidable (s.Relocks l)
  | .advance f _ => inferInstanceAs (Decidable
      ((s.pc f).isRelocked = true → s.mutex.pc f = .tryInner → s.mutex.mutex = false))
  | .call _ _ | .resume _ | .timeout _ => inferInstanceAs (Decidable True)

end State

end AsyncRPC.Channel
