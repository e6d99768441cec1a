import AsyncRPC.Hook
import AsyncRPC.Proof.FdManager

/-!
# The split of `O_NONBLOCK`

The kernel keeps a hooked socket non-blocking while its context remembers what the owner asked for.
`fcntl` keeps the two apart; `ioctl` hands the owner's wish on to the kernel.
-/

namespace AsyncRPC.Hook

open FdManager Transition Outcome

/-! ### The bit -/

theorem and_oNonblock (flags : BitVec 32) :
    flags &&& oNonblock ≠ 0 ↔ flags.getLsbD 11 = true := by
  have hbit : oNonblock = BitVec.twoPow 32 11 := by decide
  rw [hbit, BitVec.and_twoPow]
  cases flags.getLsbD 11 <;> decide

theorem Host.settable_bit (host : Host) : host.settable.getLsbD 11 = true := by
  apply (and_oNonblock host.settable).mp
  rw [host.settable_nonblock]
  decide

theorem oNonblock_bit : oNonblock.getLsbD 11 = true := by decide

@[simp]
theorem or_bit (flags : BitVec 32) : (flags ||| oNonblock).getLsbD 11 = true := by
  rw [BitVec.getLsbD_or, oNonblock_bit, Bool.or_true]

@[simp]
theorem clear_bit (flags : BitVec 32) : (flags &&& ~~~oNonblock).getLsbD 11 = false := by
  rw [BitVec.getLsbD_and, BitVec.getLsbD_not, oNonblock_bit]
  simp

/-- `F_SETFL` sets the bit where its argument has it. -/
theorem settable_bit_eq (host : Host) (flags arg : BitVec 32) :
    ((flags &&& ~~~host.settable) ||| (arg &&& host.settable)).getLsbD 11 = arg.getLsbD 11 := by
  rw [BitVec.getLsbD_or, BitVec.getLsbD_and, BitVec.getLsbD_and, BitVec.getLsbD_not,
    Host.settable_bit]
  simp

/-! ### The world of a process -/

theorem World.does {host : Host} {w w' : World} (hw : w.manager.Inv) {fd : Int32} {autoCreate : Bool}
    {fdctx : Option Ref} (h : w.getFdContext host fd autoCreate = .ok (fdctx, w')) :
    Manager.Does w.manager (.getFdContext w.kernel fd autoCreate) fdctx w'.manager := by
  obtain ⟨found, hfound, hw'⟩ := bind_eq_ok.mp h
  cases hw'
  have hperform : w.manager.perform host (.getFdContext w.kernel fd autoCreate) =
      .ok (found.1, found.2.1) := by
    rw [Manager.perform_getFdContext, hfound]
    rfl
  exact hw.does_of_perform hperform

theorem Reached.inv {host : Host} {w : World} (h : Reached host w) : w.manager.Inv := by
  induction h with
  | start kernel => exact Manager.inv_init
  | kernel _ _ ih => exact ih
  | getFdContext _ hget ih => exact ih.of_does (World.does ih hget)
  | @delFdContext w _ fd m hdel ih =>
      have hperform : w.manager.perform host (.delFdContext fd) = .ok (none, m) := by
        rw [Manager.perform_delFdContext, hdel]
        rfl
      exact ih.of_does (ih.does_of_perform hperform)
  | setUserNonblock _ ref f ih => exact ⟨ih.length, ih.made⟩

/-! ### A new socket -/

theorem World.setfl_of_refused {host : Host} {w : World} {fd : Int32} {file : File}
    (hfile : w.kernel fd = some file) {arg : BitVec 32} (h : host.refuses file.flags arg = true) :
    w.setfl host fd arg = (-1, w) := by
  unfold World.setfl Kernel.setfl
  simp only [hfile, h, if_true]

/-- The kernel's descriptors with other flags for one file. -/
def World.withFlags (w : World) (fd : Int32) (file : File) (flags : BitVec 32) : World :=
  { w with kernel := Function.update w.kernel fd (some { file with flags := flags }) }

theorem World.setfl_of_taken {host : Host} {w : World} {fd : Int32} {file : File}
    (hfile : w.kernel fd = some file) {arg : BitVec 32} (h : host.refuses file.flags arg = false) :
    ∃ flags, flags.getLsbD 11 = arg.getLsbD 11 ∧
      w.setfl host fd arg = (0, w.withFlags fd file flags) := by
  refine ⟨_, settable_bit_eq host file.flags arg, ?_⟩
  unfold World.setfl Kernel.setfl World.withFlags
  simp only [hfile, h, Bool.false_eq_true, if_false]

theorem World.fionbio_of_open {w : World} {fd : Int32} {file : File}
    (hfile : w.kernel fd = some file) (value : Int32) :
    ∃ flags, flags.getLsbD 11 = decide (value ≠ 0) ∧
      w.fionbio fd value = (0, w.withFlags fd file flags) := by
  refine ⟨if value = 0 then file.flags &&& ~~~oNonblock else file.flags ||| oNonblock, ?_, ?_⟩
  · by_cases hvalue : value = 0
    · rw [if_pos hvalue, clear_bit]
      simp [hvalue]
    · rw [if_neg hvalue, or_bit]
      simp [hvalue]
  · unfold World.fionbio Kernel.fionbio World.withFlags
    simp only [hfile]

theorem getfl_of_open {kernel : Kernel} {fd : Int32} {file : File}
    (hfile : kernel fd = some file) : kernel.getfl fd = file.flags := by
  unfold Kernel.getfl
  rw [hfile]

theorem new_socket (host : Host) {kernel : Kernel} {fd : Int32} {file : File}
    (hfile : kernel fd = some file) (hsock : file.sock = true) :
    FdContext.new host fd kernel =
      ({ FdContext.fresh fd with isSocket := true, sysNonblock := true },
        if kernel.getfl fd &&& oNonblock = 0 then
          (kernel.setfl host fd (kernel.getfl fd ||| oNonblock)).2
        else kernel) := by
  unfold FdContext.new FdContext.init FdContext.fresh
  rw [if_neg Bool.false_ne_true]
  simp only [hfile, hsock, if_true]

/-- The context of a socket sets the kernel's flag, if it is not set already. -/
theorem new_socket_kernel (host : Host) {w : World} {fd : Int32} {file : File}
    (hfile : w.kernel fd = some file) (hsock : file.sock = true) :
    ∃ flags, flags.getLsbD 11 = true ∧
      (FdContext.new host fd w.kernel).2 = (w.withFlags fd file flags).kernel := by
  rw [new_socket host hfile hsock, getfl_of_open hfile]
  by_cases hflag : file.flags &&& oNonblock = 0
  · obtain ⟨flags, hbit, hset⟩ := World.setfl_of_taken hfile (host.refuses_own file.flags)
    refine ⟨flags, hbit.trans (or_bit file.flags), ?_⟩
    rw [if_pos hflag]
    exact congrArg (fun done => done.2.kernel) hset
  · refine ⟨file.flags, (and_oNonblock file.flags).mp hflag, ?_⟩
    rw [if_neg hflag]
    exact (Function.update_eq_self_iff.mpr hfile.symm).symm

/-! ### A socket with its context -/

/-- The socket is open, and its context is found: one that goes with a socket. -/
structure Owned (fd : Int32) (ref : Ref) (w : World) : Prop where
  inv : w.manager.Inv
  range : 0 ≤ fd ∧ fd < 64
  entry : w.manager.entry fd = some ref
  isClose : (w.manager.contexts ref).isClose = false
  isSocket : (w.manager.contexts ref).isSocket = true
  sysNonblock : (w.manager.contexts ref).sysNonblock = true
  file : ∃ file, w.kernel fd = some file

namespace Owned

variable {host : Host} {fd : Int32} {ref : Ref} {w : World}

theorem getFdContext (h : Owned fd ref w) : w.getFdContext host fd false = .ok (some ref, w) := by
  unfold World.getFdContext
  rw [h.inv.getFdContext_found w.kernel h.range (by simp), h.entry]
  rfl

theorem hooked (h : Owned fd ref w) : w.hooked (some ref) = some ref := by
  unfold World.hooked
  simp [h.isClose, h.isSocket]

theorem setUserNonblock (h : Owned fd ref w) (f : Bool) : Owned fd ref (w.setUserNonblock ref f) where
  inv := ⟨h.inv.length, h.inv.made⟩
  range := h.range
  entry := h.entry
  isClose := by simp [World.setUserNonblock, h.isClose]
  isSocket := by simp [World.setUserNonblock, h.isSocket]
  sysNonblock := by simp [World.setUserNonblock, h.sysNonblock]
  file := h.file

theorem withFlags (h : Owned fd ref w) (file : File) (flags : BitVec 32) :
    Owned fd ref (w.withFlags fd file flags) :=
  { h with file := ⟨_, Function.update_self ..⟩ }

theorem fcntlSetfl (host : Host) (h : Owned fd ref w) (arg : BitVec 32) :
    w.fcntlSetfl host fd arg =
      .ok ((w.setUserNonblock ref (arg &&& oNonblock ≠ 0)).setfl host fd (arg ||| oNonblock)) := by
  have hsys := (h.setUserNonblock (arg &&& oNonblock ≠ 0)).sysNonblock
  unfold World.fcntlSetfl
  rw [h.getFdContext]
  simp only [bind, Except.bind, h.hooked, hsys, if_true]

theorem fcntlGetfl (h : Owned fd ref w) :
    w.fcntlGetfl host fd =
      .ok (if (w.manager.contexts ref).userNonblock then w.kernel.getfl fd ||| oNonblock
        else w.kernel.getfl fd &&& ~~~oNonblock, w) := by
  unfold World.fcntlGetfl
  rw [h.getFdContext]
  simp only [bind, Except.bind, h.hooked]
  split <;> rfl

theorem ioctlFionbio (host : Host) (h : Owned fd ref w) (value : Int32) :
    w.ioctlFionbio host fd value =
      .ok ((w.setUserNonblock ref (decide (value ≠ 0))).fionbio fd value) := by
  unfold World.ioctlFionbio
  rw [h.getFdContext]
  simp only [bind, Except.bind, h.hooked]

theorem getfl_bit (host : Host) (h : Owned fd ref w) :
    ∃ flags, w.fcntlGetfl host fd = .ok (flags, w) ∧
      flags.getLsbD 11 = (w.manager.contexts ref).userNonblock := by
  refine ⟨_, h.fcntlGetfl, ?_⟩
  cases (w.manager.contexts ref).userNonblock
  · exact clear_bit _
  · exact or_bit _

end Owned

namespace Session

variable {host : Host} {fd : Int32} {ref : Ref} {s : Session}

/-- The law, read off the kernel's file and the context. -/
theorem split_iff_bits (h : Owned fd ref s.world) :
    s.Split host fd ↔ (s.world.kernel.getfl fd).getLsbD 11 = true ∧
      (s.world.manager.contexts ref).userNonblock = s.user := by
  obtain ⟨flags, hflags, hbit⟩ := h.getfl_bit host
  unfold Split
  rw [and_oNonblock]
  refine and_congr_right fun _ => ?_
  constructor
  · rintro ⟨flags', w, hget, huser⟩
    cases hflags.symm.trans hget
    rw [and_oNonblock, hbit] at huser
    exact Bool.eq_iff_iff.mpr huser
  · intro huser
    refine ⟨flags, s.world, hflags, ?_⟩
    rw [and_oNonblock, hbit, huser]

/-- The law where the kernel's bit is `bit`, and the owner sees `shown` and last set `user`. -/
theorem split_of {w : World} {user bit shown : Bool} (h : Owned fd ref w)
    (hbit : (w.kernel.getfl fd).getLsbD 11 = bit)
    (hshown : (w.manager.contexts ref).userNonblock = shown) :
    Split host fd ⟨w, user⟩ ↔ bit = true ∧ shown = user := by
  rw [split_iff_bits h, hbit, hshown]

theorem split_withFlags {w : World} {file : File} {flags : BitVec 32} {user bit : Bool}
    (h : Owned fd ref w) (hbit : flags.getLsbD 11 = bit)
    (hshown : (w.manager.contexts ref).userNonblock = user) :
    Split host fd ⟨w.withFlags fd file flags, user⟩ ↔ bit = true := by
  have hgetfl : (w.withFlags fd file flags).kernel.getfl fd = flags :=
    getfl_of_open (Function.update_self ..)
  rw [split_of (h.withFlags file flags) (hgetfl ▸ hbit) hshown]
  exact and_iff_left rfl

theorem perform_getfl (h : Owned fd ref s.world) : s.perform host fd .getfl = .ok s := by
  unfold perform
  rw [h.fcntlGetfl]
  rfl

theorem perform_setfl_eq {arg : BitVec 32} {done : Int32 × World}
    (h : s.world.fcntlSetfl host fd arg = .ok done) :
    s.perform host fd (.setfl arg) =
      .ok ⟨done.2, if done.1 = -1 then s.user else arg &&& oNonblock ≠ 0⟩ := by
  simp only [perform, h]
  rfl

theorem perform_fionbio_eq {value : Int32} {done : Int32 × World}
    (h : s.world.ioctlFionbio host fd value = .ok done) :
    s.perform host fd (.fionbio value) =
      .ok ⟨done.2, if done.1 = -1 then s.user else value ≠ 0⟩ := by
  simp only [perform, h]
  rfl

theorem shown_setUserNonblock (w : World) (ref : Ref) (f : Bool) :
    ((w.setUserNonblock ref f).manager.contexts ref).userNonblock = f := by
  simp [World.setUserNonblock]

theorem keeps_setfl {file : File} (hfile : s.world.kernel fd = some file) (arg : BitVec 32) :
    Call.Keeps host fd s (.setfl arg) ↔ (host.refuses file.flags (arg ||| oNonblock) = true →
      (decide (arg &&& oNonblock ≠ 0) = s.user)) := by
  have hasked : decide (arg &&& oNonblock ≠ 0) = s.user ↔
      (arg &&& oNonblock ≠ 0 ↔ s.user = true) := by
    rw [Bool.eq_iff_iff, decide_eq_true_iff]
  rw [hasked, ← getfl_of_open hfile]
  rfl

theorem perform_setfl (h : Owned fd ref s.world) (arg : BitVec 32) (hsplit : s.Split host fd) :
    ∃ t, s.perform host fd (.setfl arg) = .ok t ∧ Owned fd ref t.world ∧
      (t.Split host fd ↔ Call.Keeps host fd s (.setfl arg)) := by
  obtain ⟨file, hfile⟩ := h.file
  obtain ⟨hbit, -⟩ := (split_iff_bits h).mp hsplit
  have hdone := h.fcntlSetfl host arg
  have howned := h.setUserNonblock (arg &&& oNonblock ≠ 0)
  have hshown := shown_setUserNonblock s.world ref (arg &&& oNonblock ≠ 0)
  have hzero : (0 : Int32) ≠ -1 := by decide
  rw [keeps_setfl hfile]
  cases hrefuses : host.refuses file.flags (arg ||| oNonblock) with
  | true =>
      rw [World.setfl_of_refused
        (w := s.world.setUserNonblock ref (arg &&& oNonblock ≠ 0)) hfile hrefuses] at hdone
      refine ⟨_, perform_setfl_eq hdone, howned, ?_⟩
      rw [if_pos rfl, split_of howned hbit hshown]
      exact ⟨fun hlaw _ => hlaw.2, fun hlaw => ⟨rfl, hlaw rfl⟩⟩
  | false =>
      obtain ⟨flags, hflags, hset⟩ := World.setfl_of_taken
        (w := s.world.setUserNonblock ref (arg &&& oNonblock ≠ 0)) hfile hrefuses
      rw [hset] at hdone
      refine ⟨_, perform_setfl_eq hdone, howned.withFlags file flags, ?_⟩
      rw [if_neg hzero, split_withFlags howned (hflags.trans (or_bit arg)) hshown]
      exact iff_of_true rfl fun hrefused => absurd hrefused Bool.false_ne_true

theorem perform_fionbio (host : Host) (h : Owned fd ref s.world) (value : Int32) :
    ∃ t, s.perform host fd (.fionbio value) = .ok t ∧ Owned fd ref t.world ∧
      (t.Split host fd ↔ value ≠ 0) := by
  obtain ⟨file, hfile⟩ := h.file
  have hdone := h.ioctlFionbio host value
  have howned := h.setUserNonblock (decide (value ≠ 0))
  have hshown := shown_setUserNonblock s.world ref (decide (value ≠ 0))
  obtain ⟨flags, hflags, hset⟩ := World.fionbio_of_open
    (w := s.world.setUserNonblock ref (decide (value ≠ 0))) hfile value
  have hzero : (0 : Int32) ≠ -1 := by decide
  rw [hset] at hdone
  refine ⟨_, perform_fionbio_eq hdone, howned.withFlags file flags, ?_⟩
  rw [if_neg hzero, split_withFlags howned hflags hshown]
  exact decide_eq_true_iff

end Session

/-- A lookup that may make a context, for a descriptor that has none. -/
theorem World.getFdContext_created (host : Host) {w w' : World} (hw : w.manager.Inv) {fd : Int32}
    (hfd : 0 ≤ fd) (hnone : w.manager.contextOf fd = none) {fdctx : Option Ref}
    (h : w.getFdContext host fd true = .ok (fdctx, w')) :
    fd < 64 ∧ w' = ⟨(FdContext.new host fd w.kernel).2,
      w.manager.created (FdContext.new host fd w.kernel).1 fd⟩ := by
  have hentry : w.manager.entry fd = none := by
    rw [Manager.contextOf_eq, if_neg (Int32.not_lt.mpr hfd)] at hnone
    exact Option.map_eq_none_iff.mp hnone
  have hlt : fd < 64 := by
    by_contra hge
    have herror : w.manager.getFdContext host w.kernel fd true = .error .outOfBounds :=
      hw.getFdContext_error w.kernel fun hin => hge (hin.2 rfl)
    rw [World.getFdContext, herror] at h
    cases h
  rw [World.getFdContext, hw.getFdContext_created w.kernel ⟨hfd, hlt⟩ hentry] at h
  cases h
  exact ⟨hlt, rfl⟩

theorem World.socket_or_accept {host : Host} {before w : World} {fd : Int32} {file : File}
    (hfd : 0 ≤ fd) (h : before.socket host true (some (fd, file)) = .ok (fd, w) ∨
      before.accept host true (some (fd, file)) = .ok (fd, w)) :
    ∃ fdctx, (before.opened fd file).getFdContext host fd true = .ok (fdctx, w) := by
  have hne : fd ≠ -1 := by
    rintro rfl
    exact absurd hfd (by decide)
  have hcall : ((before.opened fd file).getFdContext host fd true >>= fun found =>
      .ok (fd, found.2)) = Except.ok (fd, w) := by
    rcases h with h | h
    · rw [← h]
      unfold World.socket
      simp only [Bool.not_true, Bool.false_eq_true, if_false, if_neg hne]
    · rw [← h]
      unfold World.accept
      simp only [and_true, if_pos hfd]
  obtain ⟨⟨fdctx, w'⟩, hget, hw⟩ := bind_eq_ok.mp hcall
  cases hw
  exact ⟨fdctx, hget⟩

/-- The first session of a socket: its owner has set nothing yet. -/
theorem Created.owned {host : Host} {fd : Int32} {w : World} (h : Created host fd w) :
    ∃ ref, Owned fd ref w ∧ Session.Split host fd ⟨w, false⟩ := by
  obtain ⟨before, file, hreached, hfd, hsock, hnone, hcall⟩ := h
  obtain ⟨fdctx, hget⟩ := World.socket_or_accept hfd hcall
  have hfile : (before.opened fd file).kernel fd = some file := Function.update_self ..
  have hinv : (before.opened fd file).manager.Inv := hreached.inv
  obtain ⟨hlt, rfl⟩ := World.getFdContext_created host hinv hfd hnone hget
  obtain ⟨flags, hflags, hkernel⟩ := new_socket_kernel host hfile hsock
  have hopen : (FdContext.new host fd (before.opened fd file).kernel).2 fd =
      some { file with flags := flags } := by
    rw [hkernel]
    exact Function.update_self ..
  let made := (FdContext.new host fd (before.opened fd file).kernel).1
  have hcontext : ((before.opened fd file).manager.created made fd).contexts
      (before.opened fd file).manager.made =
        { FdContext.fresh fd with isSocket := true, sysNonblock := true } :=
    (Function.update_self ..).trans (congrArg Prod.fst (new_socket host hfile hsock))
  have howned : Owned fd (before.opened fd file).manager.made
      ⟨(FdContext.new host fd (before.opened fd file).kernel).2,
        (before.opened fd file).manager.created made fd⟩ :=
    { inv := hinv.created made fd
      range := ⟨hfd, hlt⟩
      entry := (hinv.addContext made).entry_put ⟨hfd, hlt⟩ _
      isClose := by rw [hcontext]; rfl
      isSocket := by rw [hcontext]
      sysNonblock := by rw [hcontext]
      file := ⟨_, hopen⟩ }
  refine ⟨_, howned, (Session.split_iff_bits howned).mpr ⟨?_, ?_⟩⟩
  · exact (congrArg (fun b => b.getLsbD 11) (getfl_of_open hopen)).trans hflags
  · exact congrArg FdContext.userNonblock hcontext

/-- **The split of `O_NONBLOCK` in a run.** From the moment a socket has its context, the kernel keeps
it non-blocking and `F_GETFL` shows its owner's last setting after every call, just if `FIONBIO` is
never used to clear the flag and no refused `F_SETFL` asked for another setting. -/
theorem split_iff (host : Host) (fd : Int32) (w : World) (h : Created host fd w)
    (calls : List Call) :
    AllStates (attempt (Session.perform host fd)) (Live (Session.Split host fd)) (.ok ⟨w, false⟩)
        calls ↔
      AllSteps (attempt (Session.perform host fd)) (WhenLive (Call.Keeps host fd)) (.ok ⟨w, false⟩)
        calls := by
  obtain ⟨ref, howned, hsplit⟩ := h.owned
  have hstep : ∀ s : Session, ∀ l, Owned fd ref s.world → s.Split host fd →
      ∃ t, s.perform host fd l = .ok t ∧ Owned fd ref t.world ∧
        (t.Split host fd ↔ Call.Keeps host fd s l) := by
    intro s l hs hlaw
    cases l with
    | setfl arg => exact Session.perform_setfl hs arg hlaw
    | getfl => exact ⟨s, Session.perform_getfl hs, hs, iff_of_true hlaw trivial⟩
    | fionbio value => exact Session.perform_fionbio host hs value
  have hinv : ∀ (s : Session) l t, Owned fd ref s.world → s.Split host fd → True →
      s.perform host fd l = .ok t → t.Split host fd → Owned fd ref t.world := by
    intro s l t hs hlaw _ hperform _
    obtain ⟨t', hperform', howned', -⟩ := hstep s l hs hlaw
    cases hperform.symm.trans hperform'
    exact howned'
  refine live_allStates_iff_allSteps hinv ?_ howned hsplit ?_
  · intro s l hs hlaw _
    obtain ⟨t, hperform, -, hiff⟩ := hstep s l hs hlaw
    rw [hperform]
    exact hiff
  · intro before l _
    exact whenLive_of_forall (fun _ _ => trivial) _ l

/-- The kernel once a process has opened its first socket, for reading and writing. -/
def firstKernel : Kernel := Function.update (fun _ => none) 5 (some ⟨true, 2⟩)

/-- The world when that `socket` returns. -/
def firstSocket : World :=
  ⟨(FdContext.new .linux 5 firstKernel).2,
    Manager.init.created (FdContext.new .linux 5 firstKernel).1 5⟩

theorem created_firstSocket : Created .linux 5 firstSocket := by
  refine ⟨⟨fun _ => none, Manager.init⟩, ⟨true, 2⟩, .start _, by decide, rfl, rfl, Or.inl ?_⟩
  rfl

theorem split_iff_firstSocket :
    AllStates (attempt (Session.perform .linux 5)) (Live (Session.Split .linux 5))
        (.ok ⟨firstSocket, false⟩) [.setfl 0x802, .getfl, .fionbio 1] ↔
      AllSteps (attempt (Session.perform .linux 5)) (WhenLive (Call.Keeps .linux 5))
        (.ok ⟨firstSocket, false⟩) [.setfl 0x802, .getfl, .fionbio 1] :=
  split_iff .linux 5 firstSocket created_firstSocket _

/-- One call of `ioctl` takes the flag from the kernel. -/
theorem not_split :
    Created .linux 5 firstSocket ∧
      ¬ AllStates (attempt (Session.perform .linux 5)) (Live (Session.Split .linux 5))
        (.ok ⟨firstSocket, false⟩) [.fionbio 0] := by
  refine ⟨created_firstSocket, fun hall => ?_⟩
  obtain ⟨ref, howned, -⟩ := created_firstSocket.owned
  obtain ⟨t, hperform, -, hiff⟩ :=
    Session.perform_fionbio .linux (s := ⟨firstSocket, false⟩) howned 0
  have hlaw := hall [.fionbio 0] List.prefix_rfl
  change Live (Session.Split .linux 5) (Session.perform .linux 5 ⟨firstSocket, false⟩ (.fionbio 0))
    at hlaw
  rw [hperform] at hlaw
  exact hiff.mp hlaw rfl

end AsyncRPC.Hook
