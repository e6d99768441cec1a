import AsyncRPC.TimerManager

/-!
# Times in different units and widths

How `IOManager::Wait` turns the time to the next timer into the timeout of `epoll_wait`, and how the
hooked `sleep`, `usleep` and `nanosleep` turn a duration into the milliseconds of a timer. A `uint64_t`
is converted to `int` and back on the way, and an `unsigned int` multiplied.
-/

namespace AsyncRPC

open Word

namespace IOManager

/-- `MAX_TIMEROUT` -/
def maxTimeout : Int := 3000

/-- `next_time` after the conversion at the head of the retry loop of `Wait`. -/
def clampTimeout (nextTime : Nat) : Nat :=
  if nextTime ≠ 2 ^ 64 - 1 then sizeOfInt (min (intOfSize nextTime) maxTimeout)
  else sizeOfInt maxTimeout

/-- The timeouts that `Wait` passes to `epoll_wait`, which is interrupted so many times. -/
def waitTimeouts (nextTime : Nat) : (interrupted : Nat) → List Int
  | 0 => [intOfSize (clampTimeout nextTime)]
  | n + 1 => intOfSize (clampTimeout nextTime) :: waitTimeouts (clampTimeout nextTime) n

/-- No longer than three seconds and than it takes to the next timer, if there is one. -/
structure Timely (nextTime : Nat) (timeout : Int) : Prop where
  nonneg : 0 ≤ timeout
  le_max : timeout ≤ 3000
  le_next : nextTime ≠ 2 ^ 64 - 1 → timeout ≤ nextTime

end IOManager

namespace Hook

inductive Sleep
  | sleep (seconds : Nat)
  | usleep (usec : Nat)
  | nanosleep (tvSec tvNsec : Nat)
  deriving Repr, DecidableEq

namespace Sleep

/-- What the arguments can be: 32 bits for the first two. -/
def InRange : Sleep → Prop
  | .sleep seconds => seconds < 2 ^ 32
  | .usleep usec => usec < 2 ^ 32
  | .nanosleep tvSec tvNsec => tvSec < 2 ^ 32 ∧ tvNsec < 10 ^ 9

def nanoseconds : Sleep → Nat
  | .sleep seconds => seconds * 10 ^ 9
  | .usleep usec => usec * 10 ^ 3
  | .nanosleep tvSec tvNsec => tvSec * 10 ^ 9 + tvNsec

def ms : Sleep → Nat
  | .sleep seconds => seconds * 1000 % 2 ^ 32
  | .usleep usec => usec / 1000
  -- `int time_ms`, from a `long`
  | .nanosleep tvSec tvNsec => sizeOfInt (intOfSize (tvSec * 1000 + tvNsec / 1000 / 1000))

/-- The timer that the hook makes, if hooks are enabled; its callback submits the fiber. -/
def perform (enabled : Bool) (m : TimerManager) (ptr now : Nat) (callback : Callback) (call : Sleep) :
    TimerManager :=
  if !enabled then m else m.addTimer ptr now call.ms (some callback) false

/-- The new timer is not due before the call plus the duration asked for. -/
def SleepsThrough (m : TimerManager) (ptr now : Nat) (callback : Callback) (call : Sleep) : Prop :=
  now * 10 ^ 6 + call.nanoseconds ≤
    ((call.perform true m ptr now callback).objects m.made).next * 10 ^ 6

/-- Whole milliseconds that fit the types on the way. A `nanosleep` whose milliseconds turn negative
goes off at once, unless the clock is so young that the sum wraps. -/
def Fits (now : Nat) : Sleep → Prop
  | .sleep seconds => seconds * 1000 < 2 ^ 32
  | .usleep usec => usec % 1000 = 0
  | .nanosleep tvSec tvNsec =>
      let time := tvSec * 1000 + tvNsec / 1000000
      tvNsec % 1000000 = 0 ∧ time < 2 ^ 31 ∨
        2 ^ 31 ≤ time % 2 ^ 32 ∧ now + time % 2 ^ 32 < 2 ^ 32

end Sleep

end Hook

end AsyncRPC
