import AsyncRPC.Lib.Coroutine
import AsyncRPC.Scheduler

/-!
# Fiber

The fibers of a process and the threads that run them, as their `ucontext_t` have it. The code that they
run is left open: of a context that `swapcontext` has saved it matters whose code it is, and how many
steps that has done. To yield takes two steps, since the other threads see the state of the fiber before
it has switched out. `Resume` is one: before its switch it leaves a state that nobody may resume, reset
or destroy.

A fiber is named by its `id_`. An exception that escapes a callback ends the process, as a failed
assertion does, and there is no step.
-/

namespace AsyncRPC

open Coroutine (Code)
open Scheduler (FiberState)

namespace Fiber

/-- Where a `ucontext_t` goes on. -/
inductive Context (W : Type)
  /-- At the beginning of `MainFunc`, as `makecontext` leaves it. -/
  | mainFunc
  | code (c : Code W) (n : Nat)
  /-- At the end of `MainFunc`; there is no `uc_link`. -/
  | leaving
  deriving Repr, DecidableEq

end Fiber

structure Fiber (W : Type) where
  state : FiberState
  ctx : Fiber.Context W
  /-- The number of the callback. -/
  func : Option Nat
  deriving Repr, DecidableEq

namespace Fiber

inductive Current
  | main
  | fiber (f : Nat)
  deriving Repr, DecidableEq

inductive Position (W : Type)
  | ctx (ctx : Context W)
  /-- In the code's call of `Yield` on a fiber, before it switches. -/
  | yield (c : Code W) (n : Nat) (this : Current) (back : Context W)
  deriving Repr, DecidableEq

structure State (W : Type) where
  fibers : Nat → Option (Fiber W)
  fiberId : Nat
  /-- How many callbacks a fiber has been given. -/
  callbacks : Nat → Nat
  threadFiber : W → Option (Fiber W)
  current : W → Option Current
  /-- Not there when the thread has exited. -/
  running : W → Option (Position W)
  /-- The steps of all the code, oldest first. -/
  log : List (Code W × Nat)

inductive Act
  | work
  | enableFiber
  | create
  | reset (f : Nat) (empty : Bool)
  | destroy (f : Nat)
  | resume (f : Nat)
  | yieldToHold
  | yieldToReady
  /-- The callback returns to `MainFunc`. -/
  | finish
  | switch
  | enter
  | exit
  deriving Repr, DecidableEq

def Act.target : Act → Option Nat
  | .reset f _ | .destroy f | .resume f => some f
  | _ => none

namespace State

variable {W : Type} [DecidableEq W]

def setFiber (s : State W) (f : Nat) (fiber : Option (Fiber W)) : State W :=
  { s with fibers := Function.update s.fibers f fiber }

def setThreadFiber (s : State W) (w : W) (fiber : Fiber W) : State W :=
  { s with threadFiber := Function.update s.threadFiber w (some fiber) }

def setThis (s : State W) (w : W) (current : Current) : State W :=
  { s with current := Function.update s.current w (some current) }

def goTo (s : State W) (w : W) (position : Position W) : State W :=
  { s with running := Function.update s.running w (some position) }

def resume (s : State W) (w : W) (here : Context W) (f : Nat) : Option (State W) :=
  match s.fibers f, s.threadFiber w with
  | some fiber, some main =>
      if fiber.state = .exec then none
      else
        some ((((s.setThis w (.fiber f)).setFiber f (some { fiber with state := .exec })).setThreadFiber w
          { main with ctx := here }).goTo w (.ctx fiber.ctx))
  | _, _ => none

/-- `GetThis` and the change of its state. -/
def yieldTo (s : State W) (w : W) (c : Code W) (n : Nat) (state : FiberState) : Option (State W) :=
  match s.current w, s.threadFiber w with
  | some .main, some main =>
      some ((s.setThreadFiber w { main with state := state }).goTo w (.yield c n .main (.code c (n + 1))))
  | some (.fiber f), _ =>
      match s.fibers f with
      | some fiber =>
          some ((s.setFiber f (some { fiber with state := state })).goTo w
            (.yield c n (.fiber f) (.code c (n + 1))))
      | none => none
  | _, _ => none

def finish (s : State W) (w : W) (c : Code W) (n f : Nat) : Option (State W) :=
  match s.fibers f with
  | some fiber =>
      some ((s.setFiber f (some { fiber with state := .term, func := none })).goTo w
        (.yield c n (.fiber f) .leaving))
  | none => none

/-- The main fiber switches from itself to itself. -/
def yield (s : State W) (w : W) (this : Current) (back : Context W) : Option (State W) :=
  match this, s.threadFiber w with
  | .main, some main =>
      some (((s.setThis w .main).setThreadFiber w { main with ctx := back }).goTo w (.ctx back))
  | .fiber f, some main =>
      match s.fibers f with
      | some fiber =>
          some (((s.setThis w .main).setFiber f (some { fiber with ctx := back })).goTo w (.ctx main.ctx))
      | none => none
  | _, none => none

/-- A step of the code, with which it comes to `n`. -/
def perform (s : State W) (w : W) (c : Code W) (n : Nat) : Act → Option (State W)
  | .work => some (s.goTo w (.ctx (.code c n)))
  | .enableFiber =>
      if (s.current w).isNone then
        some (((s.setThis w .main).setThreadFiber w ⟨.exec, .code c n, none⟩).goTo w (.ctx (.code c n)))
      else some (s.goTo w (.ctx (.code c n)))
  | .create =>
      if (s.current w).isNone then none
      else
        some
          { (s.setFiber (s.fiberId + 1) (some ⟨.init, .mainFunc, some 0⟩)).goTo w (.ctx (.code c n)) with
            fiberId := s.fiberId + 1
            callbacks := Function.update s.callbacks (s.fiberId + 1) 1 }
  | .reset f empty =>
      if (s.fibers f).any fun fiber => fiber.state.resettable then
        some
          { (s.setFiber f (some ⟨.init, .mainFunc, if empty then none else some (s.callbacks f)⟩)).goTo w
              (.ctx (.code c n)) with
            callbacks := Function.update s.callbacks f (s.callbacks f + 1) }
      else none
  | .destroy f =>
      if (s.fibers f).any fun fiber => fiber.state.resettable then
        some ((s.setFiber f none).goTo w (.ctx (.code c n)))
      else none
  | .resume f => s.resume w (.code c n) f
  | .yieldToHold => s.yieldTo w c n .hold
  | .yieldToReady => s.yieldTo w c n .ready
  | .finish =>
      match c with
      | .body f _ => s.finish w c n f
      | .own _ => none
  | .switch | .enter | .exit => none

/-- `MainFunc` calls the callback of the fiber that `GetThis` gives; an empty one throws. -/
def mainFunc (s : State W) (w : W) : Option (State W) :=
  match s.current w with
  | some (.fiber f) =>
      match (s.fibers f).bind Fiber.func with
      | some k => some (s.goTo w (.ctx (.code (.body f k) 0)))
      | none => none
  | _ => none

def step (s : State W) (l : W × Act) : Option (State W) :=
  match s.running l.1 with
  | some (.ctx (.code c n)) => { s with log := s.log ++ [(c, n)] }.perform l.1 c (n + 1) l.2
  | some (.yield c n this back) =>
      if l.2 = .switch then { s with log := s.log ++ [(c, n)] }.yield l.1 this back else none
  | some (.ctx .mainFunc) => if l.2 = .enter then s.mainFunc l.1 else none
  | some (.ctx .leaving) =>
      if l.2 = .exit then some { s with running := Function.update s.running l.1 none } else none
  | none => none

def Step (s : State W) (l : W × Act) (t : State W) : Prop := s.step l = some t

/-- What `Scheduler::Run` has to see to. A fiber is resumed, reset or destroyed when no thread is in it,
that is, when it has switched out. It is resumed by a thread and not by a fiber, when it has not ended
and has a callback. -/
structure Proper (s : State W) (l : W × Act) : Prop where
  switched : ∀ f, l.2.target = some f → ∀ w, s.current w ≠ some (.fiber f)
  caller : ∀ f, l.2 = .resume f → ∃ w n, s.running l.1 = some (.ctx (.code (.own w) n))
  ready : ∀ f fiber, l.2 = .resume f → s.fibers f = some fiber →
    fiber.state.isTerminate = false ∧ (fiber.state = .init → fiber.func ≠ none)

end State

structure New {W : Type} (s : State W) : Prop where
  fibers : ∀ f, s.fibers f = none
  fiberId : s.fiberId = 0
  callbacks : ∀ f, s.callbacks f = 0
  threadFiber : ∀ w, s.threadFiber w = none
  current : ∀ w, s.current w = none
  running : ∀ w, s.running w = some (.ctx (.code (.own w) 0))
  log : s.log = []

def Reached {W : Type} [DecidableEq W] (s : State W) : Prop :=
  Transition.Reachable (Transition.Guarded State.Proper State.Step) New s

section Simulation

variable {W : Type}

/-- How a fiber represents a coroutine. -/
inductive Fits (a : Coroutine.State W) (f : Nat) : Option (Fiber W) → Option Coroutine.Status → Prop
  | absent : Fits a f none none
  | new (func : Option Nat) : Fits a f (some ⟨.init, .mainFunc, func⟩) (some (.new func))
  | suspended (k : Nat) (func : Option Nat) (state : FiberState) (hstate : state = .hold ∨ state = .ready) :
      Fits a f (some ⟨state, .code (.body f k) (a.place (.body f k)), func⟩) (some (.suspended k))
  /-- The context is that of the last `Resume`, and the thread knows the rest. -/
  | running (k : Nat) (fiber : Fiber W)
      (hctx : fiber.ctx = .mainFunc ∨ ∃ n, fiber.ctx = .code (.body f k) n) :
      Fits a f (some fiber) (some (.running k))
  | ended : Fits a f (some ⟨.term, .leaving, none⟩) (some .ended)

/-- A thread is in the fiber, of which the callback has come to `n`. -/
inductive Within (f k n : Nat) : Position W → Fiber W → Prop
  | mainFunc (ctx : Context W) (hn : n = 0) : Within f k n (.ctx .mainFunc) ⟨.exec, ctx, some k⟩
  | code (ctx : Context W) (func : Option Nat) :
      Within f k n (.ctx (.code (.body f k) n)) ⟨.exec, ctx, func⟩
  | yield (ctx : Context W) (func : Option Nat) (state : FiberState)
      (hstate : state = .hold ∨ state = .ready) :
      Within f k n (.yield (.body f k) n (.fiber f) (.code (.body f k) (n + 1))) ⟨state, ctx, func⟩
  | finish (ctx : Context W) : Within f k n (.yield (.body f k) n (.fiber f) .leaving) ⟨.term, ctx, none⟩

/-- How a thread represents a worker. -/
inductive Runs (s : State W) (a : Coroutine.State W) (w : W) : Prop
  | own (hwithin : a.within w = none)
      (hrunning : s.running w = some (.ctx (.code (.own w) (a.place (.own w)))) ∨
        s.running w = some (.yield (.own w) (a.place (.own w)) .main (.code (.own w) (a.place (.own w) + 1))))
      (hcurrent : (s.current w = none ∧ s.threadFiber w = none) ∨
        (s.current w = some .main ∧ ∃ main n, s.threadFiber w = some main ∧ main.ctx = .code (.own w) n))
  | body (f k : Nat) (main fiber : Fiber W) (position : Position W) (hwithin : a.within w = some f)
      (hstatus : a.status f = some (.running k)) (hcurrent : s.current w = some (.fiber f))
      (hmain : s.threadFiber w = some main) (hctx : main.ctx = .code (.own w) (a.place (.own w)))
      (hfiber : s.fibers f = some fiber) (hrunning : s.running w = some position)
      (hposition : Within f k (a.place (.body f k)) position fiber)

/-- The fibers and threads are coroutines and their workers: `Resume` has returned just when the fiber
has switched out after it has yielded or ended, and all the code goes on where it was. -/
structure Simulates (s : State W) (a : Coroutine.State W) : Prop where
  fiberId : a.made = s.fiberId
  callbacks : a.bodies = s.callbacks
  log : a.log = s.log
  fibers : ∀ f, Fits a f (s.fibers f) (a.status f)
  threads : ∀ w, Runs s a w

end Simulation

namespace State

variable {W : Type}

/-- The thread executes the code, of which the next step is the `n`-th. -/
def At (s : State W) (w : W) (c : Code W) (n : Nat) : Prop :=
  s.running w = some (.ctx (.code c n)) ∨ ∃ this back, s.running w = some (.yield c n this back)

/-- `GetThis` is right, and `EXEC` is the state of the fibers that a thread is in and not about to leave. -/
structure Sound (s : State W) : Prop where
  fiber : ∀ w f, s.current w = some (.fiber f) → (∃ k n, s.At w (.body f k) n) ∨
    s.running w = some (.ctx .mainFunc)
  thread : ∀ w, (∀ f, s.current w ≠ some (.fiber f)) → ∃ n, s.At w (.own w) n
  single : ∀ w w' f, s.current w = some (.fiber f) → s.current w' = some (.fiber f) → w = w'
  exec : ∀ f fiber, s.fibers f = some fiber → (fiber.state = .exec ↔
    ∃ w ctx, s.current w = some (.fiber f) ∧ s.running w = some (.ctx ctx))

/-- `Resume` is called by a fiber, or of a fiber that has ended and switched out. -/
def Improper (s : State W) (w : W) (f : Nat) : Prop :=
  (∃ g, s.current w = some (.fiber g)) ∨
    (s.fibers f).any (fun fiber => fiber.state.isTerminate) ∧ ∀ w', s.current w' ≠ some (.fiber f)

/-- Whatever is done, the thread's own code never goes on. -/
def Lost [DecidableEq W] (s : State W) (w : W) : Prop :=
  ∀ t, Transition.Reachable Step (· = s) t →
    Interleaving.lane (.own w) t.log = Interleaving.lane (.own w) s.log

end State

end Fiber

end AsyncRPC
