import AsyncRPC.IOManager

/-!
# The table of contexts under several threads

`fdContext_` with the two critical sections of `addEvent`. Under the read lock it compares the size and,
where that is enough, takes the context; else it drops the lock, and under the write lock it resizes the
vector and takes the context. The other operations take a context under the read lock only. Contexts are
numbered in the order in which they are made.
-/

namespace AsyncRPC.ContextTable

open Word

/-- A context is made for a descriptor, or an operation takes `fdContext_[fd]`, which is nothing where
that is out of bounds. -/
inductive Entry
  | made (fd : Nat) (context : Nat)
  | used (fd : IOManager.Fd) (context : Option Nat)
  deriving Repr, DecidableEq

structure State (Thread : Type) where
  contexts : List Nat
  made : Nat
  /-- The threads between the two locks, each with its descriptor. -/
  growing : Thread → Option IOManager.Fd
  log : List Entry

namespace State

variable {Thread : Type}

def contextResize (s : State Thread) (size : Nat) : State Thread :=
  let more := size - s.contexts.length
  { s with
    contexts := s.contexts.take size ++ List.range' s.made more
    made := s.made + more
    log := s.log ++ (List.range more).map fun i => .made (s.contexts.length + i) (s.made + i) }

/-- `context = fdContext_[fd]` -/
def take (s : State Thread) (fd : IOManager.Fd) : State Thread :=
  { s with log := s.log ++ [.used fd s.contexts[fd.val]?] }

def init : State Thread :=
  contextResize { contexts := [], made := 0, growing := fun _ => none, log := [] } 64

inductive Label (Thread : Type)
  /-- The read lock of `addEvent`. -/
  | check (t : Thread) (fd : IOManager.Fd)
  /-- The write lock of `addEvent`. -/
  | grow (t : Thread)
  /-- The read lock of `delEvent`, `cancelEvent` and `cancelAllEvent`. -/
  | find (fd : IOManager.Fd)

variable [DecidableEq Thread]

def next (s : State Thread) : Label Thread → Option (State Thread)
  | .check t fd =>
      match s.growing t with
      | some _ => none
      | none =>
          if intOfSize s.contexts.length > (fd.val : Int) then some (s.take fd)
          else some { s with growing := Function.update s.growing t (some fd) }
  | .grow t =>
      match s.growing t with
      | none => none
      | some fd =>
          -- `fd * 1.5`, and the size is not looked at again
          some { (s.contextResize (fd.val * 3 / 2)).take fd with
            growing := Function.update s.growing t none }
  | .find fd =>
      if intOfSize s.contexts.length ≤ (fd.val : Int) then some s else some (s.take fd)

/-- Whoever uses a descriptor after a context has been made for it uses that context. -/
def SameContext (before after : Entry) : Prop :=
  ∀ (fd : IOManager.Fd) (context : Nat) (taken : Option Nat), before = .made fd.val context →
    after = .used fd taken → taken = some context

structure Stable (s s' : State Thread) : Prop where
  keeps : s.contexts.length ≤ s'.contexts.length
  inBounds : ∀ fd, Entry.used fd none ∉ s'.log
  same : s'.log.Pairwise SameContext

/-- A thread that has the write lock asks for no fewer contexts than there are by then. -/
def Grows (s : State Thread) : Label Thread → Prop
  | .grow t => ∀ fd, s.growing t = some fd → s.contexts.length ≤ fd.val * 3 / 2
  | _ => True

end State

end AsyncRPC.ContextTable
