import Mathlib.Algebra.Ring.Int.Defs
import Mathlib.Logic.Function.Basic

/-!
# FdManager

What the hooks know of a descriptor, and the table they find it in. The contexts are shared, so the
table holds references to them, numbered in the order in which the contexts are made. The calls of
the C library that the hooks replace act on what the kernel keeps for a descriptor.
-/

namespace AsyncRPC.FdManager

def oNonblock : BitVec 32 := 0x800#32

/-- What the kernel keeps for an open descriptor: whether `S_ISSOCK` holds of its mode, and its
status flags. -/
structure File where
  sock : Bool
  flags : BitVec 32
  deriving Repr, DecidableEq

abbrev Kernel := Int32 → Option File

/-- Which flags `F_SETFL` can change, and when it fails. It takes the flags it has itself reported,
with or without `O_NONBLOCK`. -/
structure Host where
  settable : BitVec 32
  settable_nonblock : settable &&& oNonblock = oNonblock
  refuses : BitVec 32 → BitVec 32 → Bool
  refuses_own : ∀ flags, refuses flags (flags ||| oNonblock) = false

/-- Linux: `O_APPEND`, `O_NONBLOCK`, `O_ASYNC`, `O_DIRECT` and `O_NOATIME` can be changed, except that
a socket refuses `O_DIRECT`. -/
def Host.linux : Host where
  settable := 0x46c00#32
  settable_nonblock := by decide
  refuses flags arg := arg &&& 0x4000#32 ≠ flags &&& 0x4000#32
  refuses_own := by
    intro flags
    have hother : oNonblock &&& 0x4000#32 = 0 := by decide
    rw [BitVec.and_comm, BitVec.and_or_distrib_left, BitVec.and_comm _ oNonblock, hother]
    simp [BitVec.and_comm]

namespace Kernel

variable (host : Host)

def getfl (kernel : Kernel) (fd : Int32) : BitVec 32 :=
  match kernel fd with
  | none => -1
  | some file => file.flags

def setfl (kernel : Kernel) (fd : Int32) (arg : BitVec 32) : Int32 × Kernel :=
  match kernel fd with
  | none => (-1, kernel)
  | some file =>
      if host.refuses file.flags arg then (-1, kernel)
      else
        let flags := (file.flags &&& ~~~host.settable) ||| (arg &&& host.settable)
        (0, Function.update kernel fd (some { file with flags := flags }))

def fionbio (kernel : Kernel) (fd value : Int32) : Int32 × Kernel :=
  match kernel fd with
  | none => (-1, kernel)
  | some file =>
      let flags := if value = 0 then file.flags &&& ~~~oNonblock else file.flags ||| oNonblock
      (0, Function.update kernel fd (some { file with flags := flags }))

end Kernel

structure FdContext where
  fd : Int32
  isInit : Bool
  isClose : Bool
  isSocket : Bool
  sysNonblock : Bool
  userNonblock : Bool
  sendTimeout : UInt64
  recvTimeout : UInt64
  deriving Repr, DecidableEq

namespace FdContext

variable (host : Host)

def fresh (fd : Int32) : FdContext :=
  { fd := fd, isInit := false, isClose := false, isSocket := false, sysNonblock := false,
    userNonblock := false, sendTimeout := -1, recvTimeout := -1 }

def init (context : FdContext) (kernel : Kernel) : Bool × FdContext × Kernel :=
  if context.isInit then (true, context, kernel)
  else
    let done (context : FdContext) (kernel : Kernel) :=
      (context.isInit, { context with userNonblock := false, isClose := false }, kernel)
    match kernel context.fd with
    | none => done { context with isSocket := false, isInit := false } kernel
    | some file =>
        if file.sock then
          let flag := kernel.getfl context.fd
          let kernel :=
            if flag &&& oNonblock = 0 then (kernel.setfl host context.fd (flag ||| oNonblock)).2
            else kernel
          done { context with isSocket := true, sysNonblock := true } kernel
        else done { context with isSocket := false, sysNonblock := false } kernel

def new (fd : Int32) (kernel : Kernel) : FdContext × Kernel :=
  ((fresh fd).init host kernel).2

end FdContext

/-- `fdContextList_` indexed where it has no element. -/
inductive Fault
  | outOfBounds
  deriving Repr, DecidableEq

/-- A `FdContext::ptr` that is not null: which of the contexts made so far it points to. -/
abbrev Ref := Nat

structure Manager where
  fdContextList : List (Option Ref)
  contexts : Ref → FdContext
  made : Nat

namespace Manager

variable (host : Host)

def init : Manager :=
  { fdContextList := List.replicate 64 none, contexts := fun _ => .fresh (-1), made := 0 }

/-- The conversion of a descriptor to the `size_t` that `operator[]` takes. -/
def index (fd : Int32) : Nat := (fd.toInt % 2 ^ 64).toNat

def at? (m : Manager) (fd : Int32) : Except Fault (Option Ref) :=
  match m.fdContextList[index fd]? with
  | some entry => .ok entry
  | none => .error .outOfBounds

def store (m : Manager) (fd : Int32) (entry : Option Ref) : Except Fault Manager :=
  if index fd < m.fdContextList.length then
    .ok { m with fdContextList := m.fdContextList.set (index fd) entry }
  else .error .outOfBounds

/-- `(int)fdContextList_.size() <= fd` -/
def beyond (m : Manager) (fd : Int32) : Prop := Int32.ofNat m.fdContextList.length ≤ fd

instance (m : Manager) (fd : Int32) : Decidable (m.beyond fd) :=
  inferInstanceAs (Decidable (Int32.ofNat m.fdContextList.length ≤ fd))

/-- The end of `getFdContext`, under the write lock: a new context takes the place. -/
def makeContext (m : Manager) (kernel : Kernel) (fd : Int32) :
    Except Fault (Option Ref × Manager × Kernel) := do
  let ref := m.made
  let made := FdContext.new host fd kernel
  let m := { m with contexts := Function.update m.contexts ref made.1, made := ref + 1 }
  let m ← m.store fd (some ref)
  .ok (some ref, m, made.2)

def getFdContext (m : Manager) (kernel : Kernel) (fd : Int32) (autoCreate : Bool) :
    Except Fault (Option Ref × Manager × Kernel) :=
  if m.beyond fd then
    if autoCreate then m.makeContext host kernel fd else .ok (none, m, kernel)
  else do
    let entry ← m.at? fd
    if entry.isSome || !autoCreate then .ok (entry, m, kernel) else m.makeContext host kernel fd

def delFdContext (m : Manager) (fd : Int32) : Except Fault Manager :=
  if m.beyond fd then .ok m else m.store fd none

def contextOf (m : Manager) (fd : Int32) : Option (Ref × FdContext) :=
  if fd < 0 then none else (m.fdContextList[index fd]?.join).map fun ref => (ref, m.contexts ref)

end Manager

/-! ### Runs of the table -/

inductive Call
  | getFdContext (kernel : Kernel) (fd : Int32) (autoCreate : Bool)
  | delFdContext (fd : Int32)

def Call.fd : Call → Int32
  | .getFdContext _ fd _ => fd
  | .delFdContext fd => fd

structure Event where
  call : Call
  result : Option Ref
  before : Manager
  after : Manager

namespace Manager

variable (host : Host)

def perform (m : Manager) : Call → Except Fault (Option Ref × Manager)
  | .getFdContext kernel fd autoCreate => do
      let found ← m.getFdContext host kernel fd autoCreate
      .ok (found.1, found.2.1)
  | .delFdContext fd => do
      let m ← m.delFdContext fd
      .ok (none, m)

/-- A sequence of calls, oldest first, as long as none of them leaves the table. -/
def trace (m : Manager) : List Call → Except Fault (List Event)
  | [] => .ok []
  | c :: calls => do
      let done ← m.perform host c
      let rest ← trace done.2 calls
      .ok (⟨c, done.1, m, done.2⟩ :: rest)

end Manager

/-- A sequence of calls took the table for a partial map from descriptors to contexts. -/
structure PartialMap (events : List Event) : Prop where
  negative : ∀ e ∈ events, e.call.fd < 0 → e.result = none ∧ e.after.contextOf e.call.fd = none
  created : ∀ e ∈ events, ∀ kernel fd, e.call = .getFdContext kernel fd true → 0 ≤ fd →
    e.result.isSome
  stable : ∀ before mid after first later kernel kernel' fd autoCreate,
    events = before ++ first :: mid ++ later :: after →
    first.call = .getFdContext kernel fd true → 0 ≤ fd →
    (∀ e ∈ mid, e.call ≠ .delFdContext fd) →
    later.call = .getFdContext kernel' fd autoCreate → later.result = first.result
  frame : ∀ e ∈ events, ∀ fd, fd ≠ e.call.fd → e.after.contextOf fd = e.before.contextOf fd

/-- The descriptor is not negative, and lies in the table where a context may have to be made. -/
def Call.InTable : Call → Prop
  | .getFdContext _ fd autoCreate => 0 ≤ fd ∧ (autoCreate = true → fd < 64)
  | .delFdContext fd => 0 ≤ fd

end AsyncRPC.FdManager
