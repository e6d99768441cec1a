import AsyncRPC.IOManager
import Mathlib.Data.Set.Card

/-!
# An epoll_ctl that may fail

The uses of the event table over a kernel that answers every `epoll_ctl` as it likes, so a call may
fail where the interest map would allow it. What is asked is that the bits, the contexts and
`pendingEventCount_` agree.
-/

namespace AsyncRPC.IOManager

open Word

namespace Manager

variable (layout : Layout)

inductive Call
  | addEvent (fd : Fd) (event : Event) (task : Task) (ctl : EpollCtl)
  | delEvent (fd : Fd) (event : Event) (ctl : EpollCtl)
  | cancelEvent (fd : Fd) (event : Event) (ctl : EpollCtl)
  | cancelAllEvent (fd : Fd) (ctl : EpollCtl)

def call (m : Manager) : Call → Except Crash (Bool × Manager)
  | .addEvent fd event task ctl => m.addEvent layout ctl fd event task
  | .delEvent fd event ctl => m.delEvent layout ctl fd event
  | .cancelEvent fd event ctl => m.cancelEvent layout ctl fd event
  | .cancelAllEvent fd ctl => m.cancelAllEvent layout ctl fd

inductive Use
  | call (c : Call)
  | dispatch (batch : List (Entry × EpollCtl))

def use (m : Manager) : Use → Except Crash Manager
  | .call c => Prod.snd <$> m.call layout c
  | .dispatch batch => m.dispatch layout batch

def Step (m : Manager) (u : Use) (m' : Manager) : Prop := m.use layout u = .ok m'

/-- The contexts there were are as they were, and new ones wait for nothing. -/
structure Unchanged (m m' : Manager) : Prop where
  context : ∀ fd : Fd, fd.val < m'.size →
    m'.context fd = if fd.val < m.size then m.context fd else .fresh
  pendingEventCount : m'.pendingEventCount = m.pendingEventCount

/-- The `epoll_ctl` for a bit that is not set succeeds. -/
def Grants (m : Manager) (ctl : EpollCtl) (fd : Fd) (event : Event) : Prop :=
  let request := m.addRequest layout fd event
  fd.val < m.size → (m.context fd).events.has event = false →
    (ctl m.interest request.1 fd request.2).isSome = true

/-- No call of `addEvent` that gets to its `epoll_ctl` has it fail. -/
def Granted (m : Manager) : Call → Prop
  | .addEvent fd event _ ctl => (m.grown fd).Grants layout ctl fd event
  | _ => True

def Retains (m : Manager) : Use → Prop
  | .call (.addEvent fd _ _ _) => m.size ≤ (m.grown fd).size
  | _ => True

def Careful (m : Manager) (u : Use) : Prop :=
  (∀ c, u = .call c → m.Granted layout c) ∧ m.Retains u

def registered (m : Manager) : Set (Fd × Event) :=
  {p | p.1.val < m.size ∧ (m.context p.1).events.has p.2 = true}

/-- The count is the number of bits set, and a context is empty exactly for the bits that are not. -/
structure Booked (m : Manager) : Prop where
  count : m.pendingEventCount = m.registered.ncard
  empty : ∀ fd : Fd, fd.val < m.size → ∀ event,
    (m.context fd).getEventContext event = none ↔ (m.context fd).events.has event = false

end Manager

end AsyncRPC.IOManager
