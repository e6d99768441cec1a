import AsyncRPC.Lib.Run
import Mathlib.Logic.Function.Basic

/-!
# CoMutex

One `CoMutex` and the fibers that use it, one step per access to the spin locks, the wait queue,
`fiber_id_` and the scheduler. The calls of one fiber are in sequence, those of different fibers
interleave in any order. A spin lock that is taken has no step to offer, so its waiter spins.
-/

namespace AsyncRPC.CoMutex

/-- What `t_fiber` is for a caller: no fiber, the main fiber of its thread, or a fiber of the
scheduler, with its `id_`. Nothing sets that of a main fiber, so it can be any number. -/
inductive This
  | none
  | main (id : Nat)
  | fiber (id : Nat)
  deriving Repr, DecidableEq

/-- `Fiber::GetFiberId` -/
def This.getFiberId : This → Nat
  | .none => 0
  | .main id | .fiber id => id

/-- `YieldToHold` suspends the caller, and a worker may resume it. -/
def This.suspends : This → Bool
  | .fiber _ => true
  | .none | .main _ => false

inductive Pc (F : Type)
  | idle
  | tryOuter
  | tryInner
  | guardLock
  | push
  | guardUnlock
  | yield
  | parked
  | setId
  | unlockGuard
  | clearId
  | pop
  | release (next : Option F)
  | guardRelease (next : Option F)
  | submit (next : Option F)
  deriving Repr, DecidableEq

def Pc.hasGuard {F : Type} : Pc F → Bool
  | .push | .guardUnlock | .clearId | .pop | .release _ | .guardRelease _ => true
  | _ => false

structure State (F : Type) where
  mutex : Bool
  guard : Bool
  fiberId : Nat
  waitQueue : List F
  ready : List F
  pc : F → Pc F
  /-- The calls of `lock` that have returned, less the calls of `unlock`. -/
  depth : F → Nat

/-- A new mutex. Its constructor does not set `fiber_id_`. -/
structure Free {F : Type} (s : State F) : Prop where
  mutex : s.mutex = false
  guard : s.guard = false
  waitQueue : s.waitQueue = []
  ready : s.ready = []
  pc : ∀ f, s.pc f = .idle
  depth : ∀ f, s.depth f = 0

inductive Label (F : Type)
  /-- A call of `lock`, up to and with its comparison of `fiber_id_`. -/
  | lock (f : F)
  | unlock (f : F)
  | advance (f : F)
  | resume (f : F)
  deriving Repr, DecidableEq

def Label.fiber {F : Type} : Label F → F
  | .lock f | .unlock f | .advance f | .resume f => f

variable {F : Type} [DecidableEq F] (this : F → This)

namespace State

def goto (s : State F) (f : F) (pc : Pc F) : State F :=
  { s with pc := Function.update s.pc f pc }

def enter (s : State F) (f : F) : State F :=
  { s.goto f .idle with depth := Function.update s.depth f (s.depth f + 1) }

/-- `if (Fiber::GetFiberId() == fiber_id_) return;` -/
def lock (s : State F) (f : F) : State F :=
  if (this f).getFiberId = s.fiberId then s.enter f else s.goto f .tryOuter

def unlock (s : State F) (f : F) : State F :=
  { s.goto f .unlockGuard with depth := Function.update s.depth f (s.depth f - 1) }

/-- `trylock` of `mutex_`, on to `other` where it fails. -/
def trylock (s : State F) (f : F) (other : Pc F) : State F :=
  if s.mutex then s.goto f other else { s.goto f .setId with mutex := true }

def lockGuard (s : State F) (f : F) (pc : Pc F) : Option (State F) :=
  if s.guard then none else some { s.goto f pc with guard := true }

def advance (s : State F) (f : F) : Option (State F) :=
  match s.pc f with
  | .tryOuter => some (s.trylock f .tryInner)
  | .tryInner => some (s.trylock f .guardLock)
  | .guardLock => s.lockGuard f .push
  | .push =>
      match this f with
      -- `Fiber::GetThis` dereferences `t_fiber`
      | .none => none
      | _ => some { s.goto f .guardUnlock with waitQueue := s.waitQueue ++ [f] }
  | .guardUnlock => some { s.goto f .yield with guard := false }
  | .yield =>
      match this f with
      | .none => none
      -- the main fiber swaps its context with itself and goes on at once, though it is in the queue
      | .main _ => some (s.goto f .tryOuter)
      | .fiber _ => some (s.goto f .parked)
  | .setId => some { s.enter f with fiberId := (this f).getFiberId }
  | .unlockGuard => s.lockGuard f .clearId
  | .clearId => some { s.goto f .pop with fiberId := 0 }
  | .pop =>
      match s.waitQueue with
      | [] => some (s.goto f (.release none))
      | next :: rest => some { s.goto f (.release (some next)) with waitQueue := rest }
  | .release next => some { s.goto f (.guardRelease next) with mutex := false }
  | .guardRelease next => some { s.goto f (.submit next) with guard := false }
  | .submit next => some { s.goto f .idle with ready := s.ready ++ next.toList }
  | .idle | .parked => none

def step (s : State F) : Label F → Option (State F)
  | .lock f => if s.pc f = .idle then some (s.lock this f) else none
  -- the calls are properly nested
  | .unlock f => if s.pc f = .idle ∧ 0 < s.depth f then some (s.unlock f) else none
  | .advance f => s.advance this f
  | .resume f =>
      if s.pc f = .parked ∧ f ∈ s.ready then
        some { s.goto f .tryOuter with ready := s.ready.erase f }
      else none

def Step (s : State F) (l : Label F) (t : State F) : Prop := s.step this l = some t

def Inside (s : State F) (f : F) : Prop := 0 < s.depth f

def Exclusive (s : State F) : Prop := ∀ f g, s.Inside f → s.Inside g → f = g

/-- A fiber that is not inside does not find its own id in `fiber_id_` when it locks, no fiber
unlocks while an inner `lock` is still to be matched, and no main fiber goes onto the wait queue, from
which a worker would resume it while its own thread still runs it. -/
def Careful (s : State F) : Label F → Prop
  | .lock f => s.depth f = 0 → (this f).getFiberId ≠ s.fiberId
  | .unlock f => s.depth f = 1
  | .advance f => s.pc f = .push → (this f).suspends = true
  | .resume _ => True

instance (s : State F) : (l : Label F) → Decidable (s.Careful this l)
  | .lock f => inferInstanceAs (Decidable (s.depth f = 0 → (this f).getFiberId ≠ s.fiberId))
  | .unlock f => inferInstanceAs (Decidable (s.depth f = 1))
  | .advance f => inferInstanceAs (Decidable (s.pc f = .push → (this f).suspends = true))
  | .resume _ => inferInstanceAs (Decidable True)

/-- The mutex is free and a fiber is parked for it, no call of `lock` or `unlock` is under way, and no
fiber that was woken is still to run. -/
structure LostWakeup (s : State F) : Prop where
  mutex : s.mutex = false
  parked : ∃ f ∈ s.waitQueue, s.pc f = .parked
  quiet : ∀ f, s.pc f = .idle ∨ s.pc f = .parked
  ready : s.ready = []

/-- A fiber goes onto the wait queue only while the mutex is still taken. -/
def Prompt (s : State F) : Label F → Prop
  | .advance f => s.pc f = .push → s.mutex = true
  | _ => True

instance (s : State F) : (l : Label F) → Decidable (s.Prompt l)
  | .advance f => inferInstanceAs (Decidable (s.pc f = .push → s.mutex = true))
  | .lock _ | .unlock _ | .resume _ => inferInstanceAs (Decidable True)

end State

end AsyncRPC.CoMutex
