import Mathlib.Data.List.Infix

/-!
# ScopedLock

`ScopedLock<T>` keeps in `lock_` whether it holds its mutex. Of the type `T` it only sees what `trylock`
answers, so a mutex is given by its answers, and what is recorded is the calls that reach it.
`ReadScopeLock` and `WriteScopeLock` differ in the call that acquires and in the destructor, which goes
through the guarded `unlock`.
-/

namespace AsyncRPC

/-- A call that reaches the mutex; `trylock` with its answer. -/
inductive MutexCall
  | lock
  | trylock (acquired : Bool)
  | unlock
  deriving Repr, DecidableEq

namespace MutexCall

def acquires : MutexCall → Bool
  | .lock => true
  | .trylock acquired => acquired
  | .unlock => false

def acquisitions (issued : List MutexCall) : Nat := issued.countP acquires

def releases (issued : List MutexCall) : Nat := issued.count .unlock

/-- As many releases as acquisitions, and at no point more. -/
structure Balanced (issued : List MutexCall) : Prop where
  equal : releases issued = acquisitions issued
  notAhead : ∀ before, before <+: issued → releases before ≤ acquisitions before

end MutexCall

structure ScopedLock where
  lock_ : Bool
  issued : List MutexCall
  deriving Repr, DecidableEq

namespace ScopedLock

def construct : ScopedLock := { lock_ := true, issued := [.lock] }

def lock (s : ScopedLock) : ScopedLock :=
  if !s.lock_ then { lock_ := true, issued := s.issued ++ [.lock] } else s

def unlock (s : ScopedLock) : ScopedLock :=
  if s.lock_ then { lock_ := false, issued := s.issued ++ [.unlock] } else s

/-- `trylock`, with what `mutex_.trylock()` answers if it is asked. -/
def trylock (s : ScopedLock) (answer : Bool) : Bool × ScopedLock :=
  let s := if !s.lock_ then { lock_ := answer, issued := s.issued ++ [.trylock answer] } else s
  (s.lock_, s)

def destruct (s : ScopedLock) : ScopedLock := { s with issued := s.issued ++ [.unlock] }

inductive Call
  | lock
  | unlock
  | trylock (answer : Bool)
  deriving Repr, DecidableEq

def perform (s : ScopedLock) : Call → ScopedLock
  | .lock => s.lock
  | .unlock => s.unlock
  | .trylock answer => (s.trylock answer).2

/-- What the mutex sees of a lock from its construction to its destruction. -/
def life (calls : List Call) : List MutexCall := (calls.foldl perform construct).destruct.issued

/-- Every `unlock()` is followed by a `lock()`, or by a `trylock()` that is granted. -/
def Relocked (calls : List Call) : Prop :=
  ∀ before after, calls = before ++ .unlock :: after →
    Call.lock ∈ after ∨ Call.trylock true ∈ after

end ScopedLock

end AsyncRPC
