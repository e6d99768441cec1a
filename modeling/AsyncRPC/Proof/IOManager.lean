import AsyncRPC.IOManager

/-!
# What keeps the event table and the interest map together

One lemma for each operation says what it does to a table that obeys the law, and the run rule puts
them together. A round of the dispatch loop does one of three things: it skips the entry, it takes
events from the context of the first entry, or it crashes.
-/

namespace AsyncRPC.IOManager

open Transition

section Union

theorem dataFd_setDataFd (host : ByteOrder) (data : BitVec 64) (fd : BitVec 32) :
    dataFd host (setDataFd host data fd) = fd := by
  apply BitVec.eq_of_getLsbD_eq
  intro i hi
  cases host with
  | little =>
      rw [dataFd, setDataFd, BitVec.getLsbD_extractLsb', decide_eq_true hi, Bool.true_and]
      exact BitVec.getLsbD_append.trans (by simp [hi])
  | big =>
      rw [dataFd, setDataFd, BitVec.getLsbD_extractLsb', decide_eq_true hi, Bool.true_and]
      exact BitVec.getLsbD_append.trans (by simp)

theorem setDataFd_dataFd (host : ByteOrder) (data : BitVec 64) :
    setDataFd host data (dataFd host data) = data := by
  apply BitVec.eq_of_getLsbD_eq
  intro i hi
  have hhigh : ¬ i < 32 → 32 + (i - 32) = i := by omega
  cases host with
  | little =>
      rw [dataFd, setDataFd]
      simp only [BitVec.getLsbD_append, BitVec.getLsbD_extractLsb']
      split
      · next h => simp [h]
      · next h => simp [hhigh h, show i - 32 < 32 by omega]
  | big =>
      rw [dataFd, setDataFd]
      simp only [BitVec.getLsbD_append, BitVec.getLsbD_extractLsb']
      split
      · next h => simp [h]
      · next h => simp [hhigh h, show i - 32 < 32 by omega]

/-- Writing `data.fd` over a pointer keeps it only if that half held the number already. -/
theorem setDataFd_eq_self_iff {host : ByteOrder} {data : BitVec 64} {fd : BitVec 32} :
    setDataFd host data fd = data ↔ dataFd host data = fd := by
  constructor
  · intro h
    rw [← h, dataFd_setDataFd]
  · rintro rfl
    exact setDataFd_dataFd host data

variable {layout : Layout}

theorem Layout.dataFd_pipeData : dataFd layout.host layout.pipeData = layout.pipefd :=
  dataFd_setDataFd _ _ _

theorem Layout.resolve_addr (fd : Fd) : layout.resolve (layout.addr fd) = some fd :=
  (layout.resolve_eq_some _ _).mpr rfl

theorem Layout.resolve_pipeData : layout.resolve layout.pipeData = none := by
  cases hfd : layout.resolve layout.pipeData with
  | none => rfl
  | some fd =>
      have haddr := (layout.resolve_eq_some _ _).mp hfd
      exact absurd (haddr ▸ layout.dataFd_pipeData) (layout.dataFd_addr fd)

/-- Contexts 256 bytes apart from `2 ^ 40` on, and the pipe at descriptor 4. -/
def Layout.spaced : Layout where
  host := .little
  pipefd := 4
  addr fd := BitVec.ofNat 64 (2 ^ 40 + 256 * fd.val)
  resolve p :=
    if h : 2 ^ 40 ≤ p.toNat ∧ (p.toNat - 2 ^ 40) % 256 = 0 ∧ (p.toNat - 2 ^ 40) / 256 < 2 ^ 31 then
      some ⟨(p.toNat - 2 ^ 40) / 256, h.2.2⟩
    else none
  resolve_eq_some p fd := by
    have hfd := fd.isLt
    constructor
    · intro h
      split at h
      · next hp =>
        have hval : (p.toNat - 2 ^ 40) / 256 = fd.val := congrArg Fin.val (Option.some.inj h)
        apply BitVec.eq_of_toNat_eq
        rw [BitVec.toNat_ofNat, Nat.mod_eq_of_lt (by omega)]
        omega
      · cases h
    · rintro rfl
      have htoNat : (BitVec.ofNat 64 (2 ^ 40 + 256 * fd.val)).toNat = 2 ^ 40 + 256 * fd.val := by
        rw [BitVec.toNat_ofNat, Nat.mod_eq_of_lt (by omega)]
      rw [dif_pos (by rw [htoNat]; omega)]
      apply congrArg some
      apply Fin.ext
      change ((BitVec.ofNat 64 (2 ^ 40 + 256 * fd.val)).toNat - 2 ^ 40) / 256 = fd.val
      rw [htoNat]
      omega
  dataFd_addr fd h := by
    have hnat := congrArg BitVec.toNat h
    rw [dataFd, BitVec.extractLsb'_toNat, BitVec.toNat_ofNat, Nat.shiftRight_zero] at hnat
    change _ = 4 at hnat
    omega

end Union

section EpollCtl

variable {interest : Interest} {fd : Fd} {event : EpollEvent}

theorem epollCtl_add (h : interest fd = none) :
    epollCtl interest .add fd event = some (Function.update interest fd (some event)) := by
  simp only [epollCtl, h]

theorem epollCtl_mod (h : (interest fd).isSome = true) :
    epollCtl interest .mod fd event = some (Function.update interest fd (some event)) := by
  obtain ⟨want, hwant⟩ := Option.isSome_iff_exists.mp h
  simp only [epollCtl, hwant]

theorem epollCtl_del (h : (interest fd).isSome = true) :
    epollCtl interest .del fd event = some (Function.update interest fd none) := by
  obtain ⟨want, hwant⟩ := Option.isSome_iff_exists.mp h
  simp only [epollCtl, hwant]

variable {interest' : Interest} {op : CtlOp}

theorem epollCtl_eq_some (h : epollCtl interest op fd event = some interest') :
    interest' = Function.update interest fd (if op = .del then none else some event) := by
  cases hin : interest fd with
  | none =>
      cases op with
      | add =>
          rw [epollCtl_add hin] at h
          exact (Option.some.inj h).symm
      | mod => simp [epollCtl, hin] at h
      | del => simp [epollCtl, hin] at h
  | some want =>
      have hsome : (interest fd).isSome = true := by rw [hin]; rfl
      cases op with
      | add => simp [epollCtl, hin] at h
      | mod =>
          rw [epollCtl_mod hsome] at h
          exact (Option.some.inj h).symm
      | del =>
          rw [epollCtl_del hsome] at h
          exact (Option.some.inj h).symm

theorem epollCtl_of_ne {fd' : Fd} (h : epollCtl interest op fd' event = some interest')
    (hfd : fd ≠ fd') : interest' fd = interest fd := by
  rw [epollCtl_eq_some h, Function.update_of_ne hfd]

theorem epollCtl_isSome (h : epollCtl interest op fd event = some interest')
    (hop : op ≠ .del) : (interest' fd).isSome = true := by
  rw [epollCtl_eq_some h, Function.update_self, if_neg hop]
  rfl

end EpollCtl

namespace Events

theorem has_single_self (event : Event) : (single event).has event = true := by
  cases event <;> rfl

theorem eq_none_iff {events : Events} : events = .none ↔ ∀ event, events.has event = false := by
  constructor
  · rintro rfl event
    cases event <;> rfl
  · intro h
    exact Events.ext (h .read) (h .write)

theorem diff_eq_self {a b : Events} (h : b.inter a = .none) : a.diff b = a := by
  obtain ⟨ar, aw⟩ := a
  obtain ⟨br, bw⟩ := b
  revert h
  cases ar <;> cases aw <;> cases br <;> cases bw <;> decide

theorem inter_eq_self {a b : Events} (h : a.diff b = .none) : a.inter b = a := by
  obtain ⟨ar, aw⟩ := a
  obtain ⟨br, bw⟩ := b
  revert h
  cases ar <;> cases aw <;> cases br <;> cases bw <;> decide

end Events

/-- A context after the events in `real` have been triggered. -/
def FdContext.without (context : FdContext) (real : Events) : FdContext :=
  { events := context.events.diff real
    read := if real.read then none else context.read
    write := if real.write then none else context.write }

namespace Manager

variable {layout : Layout} {m : Manager}

section Trigger

variable {fd : Fd} {real : Events} {event : Event}

theorem Waiting.task (h : m.Waiting) (hevent : (m.context fd).events.has event = true) :
    ∃ task, (m.context fd).getEventContext event = some task :=
  Option.isSome_iff_exists.mp ((h fd event).trans hevent)

/-- `m'` is `m` with the events in `real` of one context triggered. -/
structure Triggered (fd : Fd) (real : Events) (m m' : Manager) : Prop where
  size : m'.size = m.size
  interest : m'.interest = m.interest
  context : m'.context = Function.update m.context fd ((m.context fd).without real)
  submitted : m'.submitted = m.submitted ++ (m.context fd).tasks fd real

theorem triggerPending_registered (h : m.Waiting) (hevent : (m.context fd).events.has event = true) :
    ∃ m', m.triggerPending fd event = .ok m' ∧ Triggered fd (.single event) m m' := by
  obtain ⟨task, htask⟩ := h.task hevent
  have hwithout : ({ m.context fd with events := (m.context fd).events.diff (.single event) } :
      FdContext).setEventContext none event = (m.context fd).without (.single event) := by
    cases event <;> rfl
  have htasks : (m.context fd).tasks fd (.single event) = [(fd, event, task)] := by
    cases event <;> simp [FdContext.tasks, FdContext.taskOf, Events.single, htask]
  refine ⟨{ m with
    context := Function.update m.context fd ((m.context fd).without (.single event))
    submitted := m.submitted ++ (m.context fd).tasks fd (.single event)
    pendingEventCount := Word.subSize m.pendingEventCount 1 }, ?_, rfl, rfl, rfl, rfl⟩
  rw [triggerPending, triggerEvent, if_pos hevent, htask, ← hwithout, htasks]
  rfl

theorem triggered_none (fd : Fd) (m : Manager) : Triggered fd .none m m where
  size := rfl
  interest := rfl
  context := by
    have hsame : (m.context fd).without .none = m.context fd := by
      simp [FdContext.without, Events.diff, Events.none]
    rw [hsame, Function.update_eq_self]
  submitted := (List.append_nil _).symm

theorem Triggered.waiting {m' : Manager} (h : Triggered fd real m m') (hm : m.Waiting) :
    m'.Waiting := by
  intro fd' event
  rw [h.context]
  by_cases hfd : fd' = fd
  · subst hfd
    rw [Function.update_self]
    have hwas := hm fd' event
    cases event with
    | read =>
        simp only [FdContext.getEventContext, Events.has, FdContext.without, Events.diff] at hwas ⊢
        split <;> simp_all
    | write =>
        simp only [FdContext.getEventContext, Events.has, FdContext.without, Events.diff] at hwas ⊢
        split <;> simp_all
  · rw [Function.update_of_ne hfd]
    exact hm fd' event

theorem Triggered.read_write {m₁ m₂ : Manager} (h₁ : Triggered fd (.single .read) m m₁)
    (h₂ : Triggered fd (.single .write) m₁ m₂) : Triggered fd ⟨true, true⟩ m m₂ where
  size := h₂.size.trans h₁.size
  interest := h₂.interest.trans h₁.interest
  context := by
    rw [h₂.context, h₁.context, Function.update_idem, Function.update_self]
    congr 1
    simp [FdContext.without, Events.diff, Events.single]
  submitted := by
    rw [h₂.submitted, h₁.submitted, h₁.context, Function.update_self, List.append_assoc]
    simp [FdContext.tasks, FdContext.taskOf, FdContext.without, FdContext.getEventContext,
      Events.single]

theorem triggerPending_unregistered (hevent : (m.context fd).events.has event = false) :
    m.triggerPending fd event = .error .assertion := by
  rw [triggerPending, triggerEvent, hevent]
  rfl

/-- The two triggers at the end of a round, of events that are all registered. -/
theorem triggerReal_registered (h : m.Waiting) (hsub : real.diff (m.context fd).events = .none) :
    ∃ m', m.triggerReal fd real = .ok m' ∧ Triggered fd real m m' := by
  obtain ⟨r, w⟩ := real
  have hread : r = true → (m.context fd).events.has .read = true := by
    rintro rfl
    simpa [Events.diff, Events.none, Events.has] using congrArg Events.read hsub
  have hwrite : w = true → (m.context fd).events.has .write = true := by
    rintro rfl
    simpa [Events.diff, Events.none, Events.has] using congrArg Events.write hsub
  cases r with
  | false =>
      cases w with
      | false => exact ⟨m, rfl, triggered_none fd m⟩
      | true =>
          obtain ⟨m', hrun, h'⟩ := triggerPending_registered h (hwrite rfl)
          exact ⟨m', hrun, h'⟩
  | true =>
      obtain ⟨m₁, hrun₁, h₁⟩ := triggerPending_registered h (hread rfl)
      cases w with
      | false =>
          refine ⟨m₁, ?_, h₁⟩
          change (m.triggerPending fd .read >>= fun m => .ok m) = _
          rw [hrun₁]
          rfl
      | true =>
          have hstill : (m₁.context fd).events.has .write = true := by
            rw [h₁.context, Function.update_self]
            simpa [FdContext.without, Events.diff, Events.single, Events.has] using hwrite rfl
          obtain ⟨m₂, hrun₂, h₂⟩ := triggerPending_registered (h₁.waiting h) hstill
          refine ⟨m₂, ?_, h₁.read_write h₂⟩
          change (m.triggerPending fd .read >>= fun m => m.triggerPending fd .write) = _
          rw [hrun₁]
          exact hrun₂

/-- The two triggers stop at an event that is not registered. -/
theorem triggerReal_unregistered (h : m.Waiting) (hsub : real.diff (m.context fd).events ≠ .none) :
    m.triggerReal fd real = .error .assertion := by
  obtain ⟨r, w⟩ := real
  cases r with
  | false =>
      cases w with
      | false => exact absurd rfl hsub
      | true =>
          have hwrite : (m.context fd).events.has .write = false := by
            by_contra hnot
            apply hsub
            simp_all [Events.diff, Events.none, Events.has]
          exact triggerPending_unregistered hwrite
  | true =>
      cases hread : (m.context fd).events.has .read with
      | false =>
          change (m.triggerPending fd .read >>= fun m => _) = _
          rw [triggerPending_unregistered hread]
          rfl
      | true =>
          obtain ⟨m₁, hrun₁, h₁⟩ := triggerPending_registered h hread
          cases w with
          | false =>
              apply absurd _ hsub
              simp_all [Events.diff, Events.none, Events.has]
          | true =>
              have hwrite : (m₁.context fd).events.has .write = false := by
                rw [h₁.context, Function.update_self]
                by_contra hnot
                apply hsub
                simp_all [FdContext.without, Events.diff, Events.none, Events.has, Events.single]
              change (m.triggerPending fd .read >>= fun m => m.triggerPending fd .write) = _
              rw [hrun₁]
              exact triggerPending_unregistered hwrite

end Trigger

section Round

variable {fd : Fd} {first : BitVec 64} {e : Entry}

/-- A round of the dispatch loop, for which the kernel answers from its interest map. -/
def round (layout : Layout) (first : BitVec 64) (m : Manager) (e : Entry) : Except Crash Manager :=
  dispatchEntry layout first m e.exact

theorem dispatch_exact (e : Entry) (rest : List Entry) :
    m.dispatch layout ((e :: rest).map Entry.exact)
      = (e :: rest).foldlM (round layout e.event.data) m := by
  rw [List.map_cons, dispatch, ← List.map_cons, List.foldlM_map]
  rfl

/-- `m'` is `m` after a round that took the events in `real` from one context, with an entry that
carries `data`. -/
structure Took (fd : Fd) (real : Events) (data : BitVec 64) (m m' : Manager) : Prop where
  size : m'.size = m.size
  context : m'.context = Function.update m.context fd ((m.context fd).without real)
  interest : m'.interest = Function.update m.interest fd
    (if (m.context fd).events.diff real = .none then none
      else some { events := ((m.context fd).events.diff real).edge, data := data })
  submitted : m'.submitted = m.submitted ++ (m.context fd).tasks fd real

/-- What a round relies on: tasks wait where events are registered, and the context it works on is in
the interest map as long as it waits for anything. -/
structure Seated (fd : Fd) (m : Manager) : Prop where
  waiting : m.Waiting
  interest : (m.context fd).events ≠ .none → (m.interest fd).isSome = true

theorem Took.seated {real : Events} {data : BitVec 64} {m' : Manager} (h : Took fd real data m m')
    (hm : m.Waiting) : Seated fd m' := by
  constructor
  · have htriggered : Triggered fd real m { m' with interest := m.interest } :=
      ⟨h.size, rfl, h.context, h.submitted⟩
    exact htriggered.waiting hm
  · intro hleft
    rw [h.context, Function.update_self] at hleft
    have hleft' : (m.context fd).events.diff real ≠ .none := hleft
    rw [h.interest, Function.update_self, if_neg hleft']
    rfl

theorem round_pipe (hseen : dataFd layout.host e.event.data = layout.pipefd) :
    round layout first m e = .ok m := if_pos hseen

theorem round_wild (hseen : dataFd layout.host e.event.data ≠ layout.pipefd)
    (hfirst : layout.resolve first = none) : round layout first m e = .error .wildPointer := by
  rw [round, dispatchEntry, Entry.exact, if_neg hseen, hfirst]

theorem round_skip (hfirst : layout.resolve first = some fd)
    (hmiss : (e.realEvent (m.context fd).events).inter (m.context fd).events = .none) :
    round layout first m e = .ok m := by
  rw [round, dispatchEntry, Entry.exact, hfirst]
  split
  · rfl
  · simp only [hmiss, if_true]

/-- The three things a round does to the context of the first entry. -/
theorem round_cases (hfirst : layout.resolve first = some fd) (hm : Seated fd m)
    (hseen : dataFd layout.host e.event.data ≠ layout.pipefd)
    (hhit : (e.realEvent (m.context fd).events).inter (m.context fd).events ≠ .none) :
    ((e.realEvent (m.context fd).events).diff (m.context fd).events = .none ∧
      ∃ m', round layout first m e = .ok m' ∧
        Took fd (e.realEvent (m.context fd).events) e.event.data m m') ∨
    ((e.realEvent (m.context fd).events).diff (m.context fd).events ≠ .none ∧
      round layout first m e = .error .assertion) := by
  have hwaits : (m.context fd).events ≠ .none := by
    intro hnone
    apply hhit
    rw [hnone]
    simp [Events.inter, Events.none]
  generalize hreal : e.realEvent (m.context fd).events = real at hhit ⊢
  obtain ⟨m₁, hm₁⟩ : ∃ m₁ : Manager, m₁ = { m with
      interest := Function.update m.interest fd
        (if (m.context fd).events.diff real = .none then none
          else some { events := ((m.context fd).events.diff real).edge, data := e.event.data }) } :=
    ⟨_, rfl⟩
  have hcontext : m₁.context = m.context := by rw [hm₁]
  have hround : round layout first m e = m₁.triggerReal fd real := by
    rw [round, dispatchEntry, Entry.exact, if_neg hseen, hfirst, hm₁]
    simp only [hreal, if_neg hhit]
    by_cases hleft : (m.context fd).events.diff real = .none
    · simp only [hleft, ne_eq, not_true_eq_false, if_false, if_true]
      rw [epollCtl_del (hm.interest hwaits)]
    · simp only [hleft, ne_eq, not_false_eq_true, if_false, if_true]
      rw [epollCtl_mod (hm.interest hwaits)]
  have hwaiting : m₁.Waiting := by
    intro fd' event
    rw [hcontext]
    exact hm.waiting fd' event
  rw [hround, ← hcontext]
  by_cases hsub : real.diff (m₁.context fd).events = .none
  · obtain ⟨m', hrun, h'⟩ := triggerReal_registered hwaiting hsub
    refine Or.inl ⟨hsub, m', hrun, ?_, ?_, ?_, ?_⟩
    · rw [h'.size, hm₁]
    · rw [h'.context, hcontext]
    · rw [h'.interest, hm₁]
    · rw [h'.submitted, hm₁]
  · exact Or.inr ⟨hsub, triggerReal_unregistered hwaiting hsub⟩

end Round

end Manager

end AsyncRPC.IOManager
