import AsyncRPC.FdManager
import AsyncRPC.Lib.Run

/-!
# Hooks

The calls of the C library that keep the descriptor table: how a socket comes to have a context, and
the two calls by which its owner sets and reads `O_NONBLOCK`.
-/

namespace AsyncRPC.Hook

open FdManager

structure World where
  kernel : Kernel
  manager : Manager

namespace World

variable (host : Host)

def getFdContext (w : World) (fd : Int32) (autoCreate : Bool) : Except Fault (Option Ref × World) := do
  let found ← w.manager.getFdContext host w.kernel fd autoCreate
  .ok (found.1, ⟨found.2.2, found.2.1⟩)

def opened (w : World) (fd : Int32) (file : File) : World :=
  { w with kernel := Function.update w.kernel fd (some file) }

/-- `socket`, where `socket_f` returns the descriptor of a new file or `-1`. -/
def socket (enabled : Bool) (w : World) (result : Option (Int32 × File)) :
    Except Fault (Int32 × World) :=
  match result with
  | none => .ok (-1, w)
  | some (fd, file) =>
      let w := w.opened fd file
      if !enabled then .ok (fd, w)
      else if fd = -1 then .ok (fd, w)
      else do
        let found ← w.getFdContext host fd true
        .ok (fd, found.2)

/-- `accept`, where `do_io` comes back with the descriptor of a new file or with `-1`. -/
def accept (enabled : Bool) (w : World) (result : Option (Int32 × File)) :
    Except Fault (Int32 × World) :=
  match result with
  | none => .ok (-1, w)
  | some (fd, file) =>
      let w := w.opened fd file
      if 0 ≤ fd ∧ enabled then do
        let found ← w.getFdContext host fd true
        .ok (fd, found.2)
      else .ok (fd, w)

/-- The context found, unless `!fdctx || fdctx->isClosed() || !fdctx->isSocket()`. -/
def hooked (w : World) (fdctx : Option Ref) : Option Ref :=
  fdctx.filter fun ref => !(w.manager.contexts ref).isClose && (w.manager.contexts ref).isSocket

def setUserNonblock (w : World) (ref : Ref) (f : Bool) : World :=
  let context := { w.manager.contexts ref with userNonblock := f }
  { w with manager :=
    { w.manager with contexts := Function.update w.manager.contexts ref context } }

def setfl (w : World) (fd : Int32) (arg : BitVec 32) : Int32 × World :=
  let done := w.kernel.setfl host fd arg
  (done.1, { w with kernel := done.2 })

def fionbio (w : World) (fd value : Int32) : Int32 × World :=
  let done := w.kernel.fionbio fd value
  (done.1, { w with kernel := done.2 })

def fcntlSetfl (w : World) (fd : Int32) (arg : BitVec 32) : Except Fault (Int32 × World) := do
  let found ← w.getFdContext host fd false
  let w := found.2
  match w.hooked found.1 with
  | none => .ok (w.setfl host fd arg)
  | some ref =>
      let w := w.setUserNonblock ref (arg &&& oNonblock ≠ 0)
      let arg :=
        if (w.manager.contexts ref).sysNonblock then arg ||| oNonblock else arg &&& ~~~oNonblock
      .ok (w.setfl host fd arg)

def fcntlGetfl (w : World) (fd : Int32) : Except Fault (BitVec 32 × World) := do
  let arg := w.kernel.getfl fd
  let found ← w.getFdContext host fd false
  let w := found.2
  match w.hooked found.1 with
  | none => .ok (arg, w)
  | some ref =>
      if (w.manager.contexts ref).userNonblock then .ok (arg ||| oNonblock, w)
      else .ok (arg &&& ~~~oNonblock, w)

/-- `ioctl(fd, FIONBIO, arg)`, where `arg` points to `value`. -/
def ioctlFionbio (w : World) (fd value : Int32) : Except Fault (Int32 × World) := do
  let userNonblock := decide (value ≠ 0)
  let found ← w.getFdContext host fd false
  let w := found.2
  match w.hooked found.1 with
  | none => .ok (w.fionbio fd value)
  | some ref => .ok ((w.setUserNonblock ref userNonblock).fionbio fd value)

end World

/-- The worlds a process comes to: the kernel's descriptors change in any way, and the table as the
hooks use it. -/
inductive Reached (host : Host) : World → Prop
  | start (kernel : Kernel) : Reached host ⟨kernel, Manager.init⟩
  | kernel {w : World} (h : Reached host w) (kernel : Kernel) : Reached host { w with kernel := kernel }
  | getFdContext {w w' : World} (h : Reached host w) {fd : Int32} {autoCreate : Bool}
      {fdctx : Option Ref} (hget : w.getFdContext host fd autoCreate = .ok (fdctx, w')) :
      Reached host w'
  | delFdContext {w : World} (h : Reached host w) {fd : Int32} {m : Manager}
      (hdel : w.manager.delFdContext fd = .ok m) : Reached host { w with manager := m }
  | setUserNonblock {w : World} (h : Reached host w) (ref : Ref) (f : Bool) :
      Reached host (w.setUserNonblock ref f)

/-- A socket whose context was made when `socket` or `accept` returned it with the hooks enabled: its
descriptor had none before. -/
def Created (host : Host) (fd : Int32) (w : World) : Prop :=
  ∃ (before : World) (file : File), Reached host before ∧ 0 ≤ fd ∧ file.sock = true ∧
    before.manager.contextOf fd = none ∧
    (before.socket host true (some (fd, file)) = .ok (fd, w) ∨
      before.accept host true (some (fd, file)) = .ok (fd, w))

/-! ### Runs on one socket -/

inductive Call
  | setfl (arg : BitVec 32)
  | getfl
  | fionbio (value : Int32)
  deriving Repr, DecidableEq

/-- The world, and what the owner of the socket last set `O_NONBLOCK` to: a call that fails sets
nothing. -/
structure Session where
  world : World
  user : Bool

namespace Session

variable (host : Host) (fd : Int32)

def perform (s : Session) : Call → Except Fault Session
  | .setfl arg => do
      let done ← s.world.fcntlSetfl host fd arg
      .ok ⟨done.2, if done.1 = -1 then s.user else arg &&& oNonblock ≠ 0⟩
  | .getfl => do
      let done ← s.world.fcntlGetfl host fd
      .ok { s with world := done.2 }
  | .fionbio value => do
      let done ← s.world.ioctlFionbio host fd value
      .ok ⟨done.2, if done.1 = -1 then s.user else value ≠ 0⟩

/-- The kernel has the socket as non-blocking, and `F_GETFL` shows the owner's own setting. -/
def Split (s : Session) : Prop :=
  s.world.kernel.getfl fd &&& oNonblock ≠ 0 ∧
    ∃ flags w, s.world.fcntlGetfl host fd = .ok (flags, w) ∧
      (flags &&& oNonblock ≠ 0 ↔ s.user = true)

end Session

/-- `FIONBIO` is not used to clear the flag, and a `F_SETFL` that the kernel refuses asks for the
setting that holds already. -/
def Call.Keeps (host : Host) (fd : Int32) (s : Session) : Call → Prop
  | .setfl arg => host.refuses (s.world.kernel.getfl fd) (arg ||| oNonblock) = true →
      (arg &&& oNonblock ≠ 0 ↔ s.user = true)
  | .getfl => True
  | .fionbio value => value ≠ 0

end AsyncRPC.Hook
