import AsyncRPC.CoCondVar

/-!
# CoSemaphore

One `CoSemaphore` whose `mutex_` excludes, with the steps of its condition variable. The first critical
section of `var_.wait` is one step with the test before it, in which the fiber is put into the queue and
`mutex_` given up; the wait ends when the fiber has `mutex_` again.
-/

namespace AsyncRPC.CoSemaphore

inductive Op
  | wait
  | notify
  deriving Repr, DecidableEq

inductive Pc (F : Type)
  | idle
  | locking (op : Op)
  | testing
  /-- In `var_.wait`, without `mutex_`; the ticket is that of the wait. -/
  | waiting (k : Nat)
  /-- With `mutex_` again, before the next test. -/
  | woken (k : Nat)
  | lowering
  | notifying
  | submitting (p : F × Option Nat)
  | unlocking
  deriving Repr, DecidableEq

def Pc.holds {F : Type} : Pc F → Bool
  | .idle | .locking _ | .waiting _ => false
  | .testing | .woken _ | .lowering | .notifying | .submitting _ | .unlocking => true

structure State (F : Type) where
  mutex : Option F
  var : CoCondVar.State F
  num : Nat
  used : Nat
  pc : F → Pc F

structure New {F : Type} (s : State F) : Prop where
  mutex : s.mutex = none
  var : CoCondVar.New s.var
  used : s.used = 0
  pc : ∀ f, s.pc f = .idle

inductive Label (F : Type)
  | call (f : F) (op : Op)
  | lock (f : F)
  | test (f : F)
  | yield (f : F)
  | resume (f : F)
  | retake (f : F)
  | lower (f : F)
  /-- `var_.notify`, in which the fiber is `*waitQueue_.begin()`, if there is one. -/
  | notify (f : F) (first : Option F)
  | submit (f : F)
  | unlock (f : F)
  deriving Repr, DecidableEq

namespace State

variable {F : Type} [DecidableEq F]

def goto (s : State F) (f : F) (pc : Pc F) : State F :=
  { s with pc := Function.update s.pc f pc }

def stepVar (s : State F) (l : CoCondVar.Label F) : Option (State F) :=
  (s.var.step l).map fun var => { s with var := var }

def take (s : State F) (f : F) : Option (State F) :=
  if s.mutex = none then some { s with mutex := some f } else none

/-- `while (used_ >= num_)`, and what follows it. -/
def test (s : State F) (f : F) : Option (State F) :=
  if s.num ≤ s.used then do
    let k := s.var.next
    let s ← s.stepVar (.wait f)
    some { s.goto f (.waiting k) with mutex := none }
  else some { s.goto f .unlocking with used := s.used + 1 }

def step (s : State F) : Label F → Option (State F)
  | .call f op =>
      match s.pc f with
      | .idle => some (s.goto f (.locking op))
      | _ => none
  | .lock f =>
      match s.pc f with
      | .locking .wait => (s.goto f .testing).take f
      | .locking .notify => (s.goto f .lowering).take f
      | _ => none
  | .test f =>
      match s.pc f with
      | .testing | .woken _ => s.test f
      | _ => none
  | .yield f => s.stepVar (.yield f)
  | .resume f => s.stepVar (.resume f)
  | .retake f =>
      match s.pc f with
      | .waiting k => do
          let s ← s.stepVar (.leave f)
          (s.goto f (.woken k)).take f
      | _ => none
  | .lower f =>
      match s.pc f with
      | .lowering =>
          some { s.goto f .notifying with used := if s.used > 0 then s.used - 1 else s.used }
      | _ => none
  | .notify f first =>
      match s.pc f with
      | .notifying =>
          match first with
          | none =>
              if s.var.mutex = false ∧ s.var.waitQueue = [] then some (s.goto f .unlocking) else none
          | some g => do
              let p := (g, (s.var.pc g).ticket)
              let s ← s.stepVar (.notify g)
              some (s.goto f (.submitting p))
      | _ => none
  | .submit f =>
      match s.pc f with
      | .submitting p => do
          let s ← s.stepVar (.submit p)
          some (s.goto f .unlocking)
      | _ => none
  | .unlock f =>
      match s.pc f with
      | .unlocking => some { s.goto f .idle with mutex := none }
      | _ => none

def Step (s : State F) (l : Label F) (t : State F) : Prop := s.step l = some t

/-- The fiber was notified out of `var_` and has not tested `used_` since. -/
def Retests (s : State F) (f : F) : Prop :=
  match s.pc f with
  | .waiting k | .woken k => (s.var.waits k).any CoCondVar.Wait.notified = true
  | _ => False

/-- As long as a fiber waits, each free permit has a notified fiber of its own that will test for it. -/
structure Accounted (s : State F) : Prop where
  used_le : s.used ≤ s.num
  notified : s.var.waitQueue ≠ [] →
    ∃ fibers : List F, fibers.Nodup ∧ (∀ f ∈ fibers, s.Retests f) ∧ s.num - s.used ≤ fibers.length

end State

end AsyncRPC.CoSemaphore
