import AsyncRPC.KeepAlive

/-!
# Heart timers

How a server gives up the clients that it hears nothing more from, for any number of calls of
`handleClient`; `RPCServer` and `RPCServiceRegistry` do the same here. A step is an `update`, the end of
a call, a pass of the `IOManager` over its timers, a callback that the pass has submitted, or somebody
else's call on the timers.

A client is named by its call of `handleClient`. It may be heard from at any time until the call
returns, also when its socket has been closed.
-/

namespace AsyncRPC.HeartTimer

/-- `s_heartbeat_timeout` -/
def aliveTime : Nat := 40000

inductive Pc
  | outside
  | serving (heartTimer : Nat)
  | returned (heartTimer : Nat)
  deriving Repr, DecidableEq

def Pc.timer : Pc → Option Nat
  | .outside => none
  | .serving id | .returned id => some id

inductive Event (C : Type)
  | heard (c : C) (now : Nat)
  /-- A pass, with the clients whose callbacks it submits. -/
  | pass (curr : Nat) (clients : List C)
  deriving Repr, DecidableEq

structure State (C : Type) where
  timers : TimerHistory
  pc : C → Pc
  /-- The `client` that the callback of a timer has captured. -/
  captured : Nat → Option C
  /-- The timers whose callbacks are submitted and have not been called. -/
  callbacks : List Nat
  closed : List C
  log : List (Event C)

inductive Label (C : Type)
  /-- With what a new timer would be made of. -/
  | update (c : C) (ptr now : Nat)
  | leave (c : C)
  | expire (curr ptr : Nat)
  | fire (id : Nat)
  | timers (call : TimerCall)
  deriving Repr, DecidableEq

namespace State

variable {C : Type} [DecidableEq C]

def goto (s : State C) (c : C) (pc : Pc) : State C := { s with pc := Function.update s.pc c pc }

def record (s : State C) (e : Event C) : State C := { s with log := s.log ++ [e] }

/-- `update`, at the beginning of `handleClient` and for every frame. -/
def update (s : State C) (c : C) (ptr now : Nat) : Option (State C) :=
  match s.pc c with
  | .outside =>
      let id := s.timers.manager.made
      (s.timers.perform (.addTimer ptr now aliveTime (some 0) false)).toOption.map fun timers =>
        { (s.goto c (.serving id)).record (.heard c now) with
          timers := timers
          captured := Function.update s.captured id (some c) }
  | .serving id =>
      (s.timers.perform (.reset id aliveTime true now)).toOption.map fun timers =>
        { s.record (.heard c now) with timers := timers }
  | .returned _ => none

/-- The timer stays when `handleClient` returns. -/
def leave (s : State C) (c : C) : Option (State C) :=
  match s.pc c with
  | .serving id => some (s.goto c (.returned id))
  | .outside | .returned _ => none

def expire (s : State C) (curr ptr : Nat) : Option (State C) :=
  (s.timers.perform (.listOverTimeCallback curr ptr)).toOption.map fun timers =>
    let ids := s.timers.manager.expired curr ptr
    { s.record (.pass curr (ids.filterMap s.captured)) with
      timers := timers
      callbacks := s.callbacks ++ ids }

def fire (s : State C) (id : Nat) : Option (State C) :=
  if id ∈ s.callbacks then
    some
      { s with
        callbacks := s.callbacks.erase id
        closed := s.closed ++ (s.captured id).toList }
  else none

def step (s : State C) : Label C → Option (State C)
  | .update c ptr now => s.update c ptr now
  | .leave c => s.leave c
  | .expire curr ptr => s.expire curr ptr
  | .fire id => s.fire id
  | .timers call => (s.timers.perform call).toOption.map fun timers => { s with timers := timers }

def Step (s : State C) (l : Label C) (t : State C) : Prop := s.step l = some t

/-- `new` returns memory that is not in use, the clock is not about to wrap, and nobody else knows a
heart timer. -/
def Possible (s : State C) : Label C → Prop
  | .update _ ptr now => s.timers.Unused ptr ∧ now + aliveTime < 2 ^ 64
  | .expire _ ptr => s.timers.Unused ptr
  | .timers call => s.timers.Possible call ∧ (∀ id ∈ KeepAlive.on call, s.captured id = none) ∧
      ∀ curr ptr, call ≠ .listOverTimeCallback curr ptr
  | .leave _ | .fire _ => True

end State

structure New {C : Type} (s : State C) : Prop where
  timers : s.timers = .init
  pc : ∀ c, s.pc c = .outside
  captured : ∀ id, s.captured id = none
  callbacks : s.callbacks = []
  closed : s.closed = []
  log : s.log = []

def Reached {C : Type} [DecidableEq C] (s : State C) : Prop :=
  Transition.Reachable (Transition.Guarded State.Possible State.Step) New s

/-! ### What the passes decide -/

namespace Event

variable {C : Type} [DecidableEq C]

/-- When the event is that the client is heard from. -/
def readingOf (c : C) : Event C → Option Nat
  | .heard c' now => if c' = c then some now else none
  | .pass _ _ => none

def clients : Event C → List C
  | .heard _ _ => []
  | .pass _ clients => clients

end Event

section Judgement

variable {C : Type} [DecidableEq C]

/-- The clock when the client was last heard from. -/
def lastHeard (log : List (Event C)) (c : C) : Option Nat := (log.filterMap (Event.readingOf c)).getLast?

def givenUp (log : List (Event C)) : List C := log.flatMap Event.clients

/-- A pass gives up clients that were not heard from for `alive_time_`, and all that were not heard from
for longer, unless an earlier pass has. -/
def Judges (before : List (Event C)) (curr : Nat) (clients : List C) : Prop :=
  ∀ c, (c ∈ clients → c ∉ givenUp before ∧
      ∃ now, lastHeard before c = some now ∧ now + aliveTime ≤ curr) ∧
    ∀ now, lastHeard before c = some now → now + aliveTime < curr → c ∈ clients ∨ c ∈ givenUp before

def Attentive (log : List (Event C)) : Prop :=
  ∀ before curr clients after, log = before ++ .pass curr clients :: after → Judges before curr clients

namespace State

/-- Every client that is given up has its socket closed once, or its callback is still to be called. -/
structure ClosesOnce (s : State C) : Prop where
  nodup : (givenUp s.log).Nodup
  closes : (s.closed ++ s.callbacks.filterMap s.captured).Perm (givenUp s.log)

/-- The `IOManager` is not told to wait for longer than until a client is due that is not given up. -/
def Wakeful (s : State C) : Prop :=
  ∀ c now curr, lastHeard s.log c = some now → c ∉ givenUp s.log →
    s.timers.manager.getNextTimerTime curr ≤ now + aliveTime - curr

end State

end Judgement

end AsyncRPC.HeartTimer
