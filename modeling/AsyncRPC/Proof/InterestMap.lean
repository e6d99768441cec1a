import AsyncRPC.Lib.Outcome
import AsyncRPC.Proof.Dispatch

/-!
# Runs that keep the interest map in step with the event table

As long as the law holds, each use of the table either keeps it or breaks it at once, and `Keeps`
tells which from the state before. `addEvent` keeps it unless the table is so large that its size is
negative as an `int`: then it may be cut. `delEvent` and `cancelEvent` choose between `EPOLL_CTL_MOD`
and `EPOLL_CTL_DEL` by the old events, and `cancelAllEvent` does not choose, so none of them ever
removes a descriptor.
-/

namespace AsyncRPC.IOManager.Manager

open Transition Word

variable {layout : Layout} {m m' : Manager} {fd : Fd}

section Exact

-- unfolded, the comparison of a size with a descriptor is evaluated on numbers of 32 bits
attribute [local irreducible] intOfSize

/-- What holds beside the law: nothing is registered outside the table, and tasks wait just where
events are registered. -/
structure Tidy (m : Manager) : Prop where
  outside : ∀ fd : Fd, m.size ≤ fd.val → m.context fd = .fresh
  waiting : m.Waiting

section Update

theorem Tidy.lt_size (h : m.Tidy) (hevents : (m.context fd).events ≠ .none) : fd.val < m.size := by
  by_contra hnot
  rw [h.outside fd (Nat.not_lt.mp hnot)] at hevents
  exact hevents rfl

/-- The entry of the interest map that the law asks for. -/
def wanted (layout : Layout) (fd : Fd) (events : Events) : Option EpollEvent :=
  if events = .none then none else some { events := events.edge, data := layout.addr fd }

/-- The law, where nothing is registered outside the table. -/
def Mapped (layout : Layout) (m : Manager) : Prop :=
  ∀ fd, m.interest fd = wanted layout fd (m.context fd).events

theorem Tidy.law_iff (h : m.Tidy) : m.Law layout ↔ m.Mapped layout := by
  refine forall_congr' fun fd => ?_
  rw [wanted]
  by_cases hevents : (m.context fd).events = .none
  · rw [if_neg fun hin => hin.2 hevents, if_pos hevents]
  · rw [if_pos ⟨h.lt_size hevents, hevents⟩, if_neg hevents]

/-- A step that changes one descriptor keeps the law if it does so for that one. -/
theorem mapped_update_iff (h : m.Mapped layout) {context : FdContext} {want : Option EpollEvent}
    (hcontext : m'.context = Function.update m.context fd context)
    (hinterest : m'.interest = Function.update m.interest fd want) :
    m'.Mapped layout ↔ want = wanted layout fd context.events := by
  constructor
  · intro h'
    have hfd := h' fd
    rw [hcontext, hinterest, Function.update_self, Function.update_self] at hfd
    exact hfd
  · intro hwant fd'
    rw [hcontext, hinterest]
    by_cases hfd : fd' = fd
    · subst hfd
      rw [Function.update_self, Function.update_self]
      exact hwant
    · rw [Function.update_of_ne hfd, Function.update_of_ne hfd]
      exact h fd'

theorem Tidy.update (h : m.Tidy) (hfd : fd.val < m.size) {context : FdContext}
    (hsize : m'.size = m.size) (hcontext : m'.context = Function.update m.context fd context)
    (htasks : ∀ event, (context.getEventContext event).isSome = context.events.has event) :
    m'.Tidy := by
  refine ⟨?_, ?_⟩
  · intro fd' houtside
    rw [hsize] at houtside
    have hne : fd' ≠ fd := by
      rintro rfl
      exact absurd houtside (Nat.not_le.mpr hfd)
    rw [hcontext, Function.update_of_ne hne]
    exact h.outside fd' houtside
  · intro fd' event
    rw [hcontext]
    by_cases hne : fd' = fd
    · subst hne
      rw [Function.update_self]
      exact htasks event
    · rw [Function.update_of_ne hne]
      exact h.waiting fd' event

theorem Mapped.isSome (h : m.Mapped layout) (hevents : (m.context fd).events ≠ .none) :
    (m.interest fd).isSome = true := by
  rw [h fd, wanted, if_neg hevents]
  rfl

end Update

section Grow

theorem grown_cases (m : Manager) (fd : Fd) : (m.grown fd = m ∧ intOfSize m.size > (fd.val : Int)) ∨
    m.grown fd = m.contextResize (fd.val * 3 / 2) := by
  by_cases hsize : intOfSize m.size > (fd.val : Int)
  · exact Or.inl ⟨if_pos hsize, hsize⟩
  · exact Or.inr (if_neg hsize)

theorem context_contextResize (m : Manager) (size : Nat) (fd : Fd) :
    (m.contextResize size).context fd
      = if m.size ≤ fd.val ∧ fd.val < size then .fresh else m.context fd := rfl

theorem grown_of_large (h : intOfSize m.size ≤ (fd.val : Int)) :
    m.grown fd = m.contextResize (fd.val * 3 / 2) := by
  rw [Manager.grown, if_neg (Int.not_lt.mpr h)]

theorem size_contextResize (m : Manager) (size : Nat) : (m.contextResize size).size = size := rfl

/-- A context that nothing is registered in is as a new one. -/
theorem Waiting.eq_fresh (h : m.Waiting) (hevents : (m.context fd).events = .none) :
    m.context fd = .fresh := by
  have hnone : ∀ event, (m.context fd).getEventContext event = none := by
    intro event
    rw [← Option.isNone_iff_eq_none, ← Option.isSome_eq_false_iff, h fd event]
    exact Events.eq_none_iff.mp hevents event
  have hread : (m.context fd).read = none := hnone .read
  have hwrite : (m.context fd).write = none := hnone .write
  generalize m.context fd = context at hevents hread hwrite
  cases context
  simp_all [FdContext.fresh]

theorem Tidy.context_grown (h : m.Tidy) : (m.grown fd).context = m.context := by
  rcases grown_cases m fd with ⟨hsame, -⟩ | hresize
  · rw [hsame]
  · funext i
    rw [hresize, context_contextResize]
    split
    · next hi => exact (h.outside i hi.1).symm
    · rfl

theorem interest_grown (m : Manager) (fd : Fd) : (m.grown fd).interest = m.interest := by
  rcases grown_cases m fd with ⟨hsame, -⟩ | hresize
  · rw [hsame]
  · rw [hresize]
    rfl

/-- Whether the table is resized or not, there is room for the descriptor and for all that wait. -/
theorem Tidy.grown (h : m.Tidy) (hfits : m.Fits fd) : fd.val < (m.grown fd).size ∧ (m.grown fd).Tidy := by
  have hwaiting : (m.grown fd).Waiting := by
    intro i event
    rw [h.context_grown]
    exact h.waiting i event
  by_cases hsize : intOfSize m.size > (fd.val : Int)
  · have hsame : m.grown fd = m := by rw [Manager.grown, if_pos hsize]
    have hle := intOfSize_le m.size
    rw [hsame]
    exact ⟨by omega, h⟩
  · obtain ⟨hroom, hregistered⟩ := hfits (Int.not_lt.mp hsize)
    have hlength : (m.grown fd).size = fd.val * 3 / 2 := by
      rw [grown_of_large (Int.not_lt.mp hsize), size_contextResize]
    refine ⟨hlength ▸ hroom, fun i hi => ?_, hwaiting⟩
    rw [h.context_grown]
    apply h.waiting.eq_fresh
    by_contra hevents
    have hlt := hregistered i hevents
    omega

end Grow

section Add

theorem events_setEventContext (context : FdContext) (task : Option Task) (event : Event) :
    (context.setEventContext task event).events = context.events := by
  cases event <;> rfl

theorem registerEvent_spec (h : m.Tidy) (hlaw : m.Mapped layout) (hsize : fd.val < m.size)
    {event : Event} (task : Task) (hnew : (m.context fd).events.has event = false) :
    ∃ m', m.registerEvent layout epollCtl fd event task = .ok (true, m') ∧ m'.Tidy ∧
      m'.Mapped layout := by
  have htask : (m.context fd).getEventContext event = none := by
    have hnone := (h.waiting fd event).trans hnew
    simpa using hnone
  -- registering the first event adds the descriptor, a second one modifies it
  have hctl : epollCtl m.interest (m.addRequest layout fd event).1 fd (m.addRequest layout fd event).2
      = some (Function.update m.interest fd (some (m.addRequest layout fd event).2)) := by
    rw [addRequest]
    dsimp only
    by_cases hevents : (m.context fd).events = .none
    · rw [if_neg (not_not.mpr hevents), epollCtl_add (by rw [hlaw fd, wanted, if_pos hevents])]
    · rw [if_pos hevents, epollCtl_mod (hlaw.isSome hevents)]
  have hnonempty : (Events.single event).union (m.context fd).events ≠ .none := by
    intro hnone
    have hhas := Events.eq_none_iff.mp hnone event
    cases event <;> simp [Events.has, Events.union, Events.single] at hhas
  have hkept : ({ m.context fd with
      events := (Events.single event).union (m.context fd).events } : FdContext).getEventContext event
      = none := by
    rw [← htask]
    cases event <;> rfl
  refine ⟨{ m with
    context := Function.update m.context fd (({ m.context fd with
      events := (Events.single event).union (m.context fd).events } : FdContext).setEventContext
        (some task) event)
    interest := Function.update m.interest fd (some (m.addRequest layout fd event).2)
    pendingEventCount := addSize m.pendingEventCount 1 }, ?_, ?_, ?_⟩
  · rw [registerEvent]
    simp only [if_neg (Nat.not_le.mpr hsize), hnew, hctl, hkept]
    rfl
  · refine h.update hsize rfl rfl ?_
    intro event'
    rw [events_setEventContext]
    have hwas := h.waiting fd event'
    cases event <;> cases event' <;>
      simp_all [FdContext.getEventContext, FdContext.setEventContext, Events.has, Events.union,
        Events.single]
  · rw [mapped_update_iff hlaw rfl rfl, wanted, events_setEventContext, if_neg hnonempty]
    rfl

theorem addEvent_spec (h : m.Tidy) (hlaw : m.Mapped layout) {event : Event} (task : Task)
    (hnew : (m.context fd).events.has event = false) (hfits : m.Fits fd) :
    ∃ m', m.addEvent layout epollCtl fd event task = .ok (true, m') ∧ m'.Tidy ∧ m'.Mapped layout := by
  obtain ⟨hsize, htidy⟩ := h.grown hfits
  have hmapped : (m.grown fd).Mapped layout := by
    intro fd'
    rw [h.context_grown, interest_grown]
    exact hlaw fd'
  refine registerEvent_spec htidy hmapped hsize task ?_
  rw [h.context_grown]
  exact hnew

theorem registerEvent_frame {event : Event} {task : Task} {b : Bool}
    (hrun : m.registerEvent layout epollCtl fd event task = .ok (b, m')) :
    fd.val < m.size ∧ m'.size = m.size ∧ ∀ fd', fd' ≠ fd → m'.interest fd' = m.interest fd' := by
  rw [registerEvent] at hrun
  dsimp only at hrun
  split at hrun
  · cases hrun
  · next hsize =>
    refine ⟨Nat.not_le.mp hsize, ?_⟩
    split at hrun
    · cases hrun
    · split at hrun
      · cases hrun
        exact ⟨rfl, fun _ _ => rfl⟩
      · next hctl =>
        split at hrun
        · cases hrun
        · cases hrun
          exact ⟨rfl, fun fd' hfd => epollCtl_of_ne hctl hfd⟩

/-- A table that is cut below a descriptor with registered events leaves it in the interest map. -/
theorem not_law_of_not_fits (hlaw : m.Mapped layout) (hfits : ¬ m.Fits fd) {event : Event}
    {task : Task} :
    ¬ Live (Law layout) (Prod.snd <$> m.addEvent layout epollCtl fd event task) := by
  intro hlive
  obtain ⟨m', hrun, hlaw'⟩ := live_iff.mp hlive
  obtain ⟨⟨b, _⟩, hadd, rfl⟩ := Outcome.map_eq_ok.mp hrun
  obtain ⟨hsize, hkept, hinterest⟩ := registerEvent_frame hadd
  apply hfits
  intro hlarge
  have hlength : (m.grown fd).size = fd.val * 3 / 2 := by
    rw [grown_of_large hlarge, size_contextResize]
  refine ⟨hlength ▸ hsize, fun fd' hevents => ?_⟩
  by_cases hfd : fd' = fd
  · rw [hfd, ← hlength]
    exact hsize
  · have hfound := hlaw' fd'
    rw [hinterest fd' hfd, interest_grown] at hfound
    have hsome := hlaw.isSome hevents
    rw [hfound] at hsome
    split at hsome
    · next hin => exact hlength ▸ hkept ▸ hin.1
    · cases hsome

end Add

section Remove

variable {event : Event}

theorem events_ne_none (h : (m.context fd).events.has event = true) : (m.context fd).events ≠ .none := by
  intro hnone
  rw [Events.eq_none_iff.mp hnone event] at h
  cases h

theorem diff_single_eq_none_iff (h : (m.context fd).events.has event = true) :
    (m.context fd).events.diff (.single event) = .none ↔ (m.context fd).events = .single event := by
  generalize (m.context fd).events = events at h
  obtain ⟨r, w⟩ := events
  revert h
  cases event <;> cases r <;> cases w <;> decide

theorem htasks_without (h : m.Tidy) (fd : Fd) (real : Events) (event : Event) :
    (((m.context fd).without real).getEventContext event).isSome
      = ((m.context fd).without real).events.has event := by
  have hwas := h.waiting fd event
  cases event <;>
    simp only [FdContext.getEventContext, FdContext.without, Events.has, Events.diff] at hwas ⊢ <;>
    split <;> simp_all

/-- `delEvent` and `cancelEvent` on a registered event leave the descriptor in the interest map with
what remains, under the user data they give. -/
theorem mapped_remove_iff (m' : Manager) (h : m.Tidy) (hlaw : m.Mapped layout)
    (hevent : (m.context fd).events.has event = true) {data : BitVec 64}
    (hsize : m'.size = m.size)
    (hcontext : m'.context = Function.update m.context fd ((m.context fd).without (.single event)))
    (hinterest : m'.interest = Function.update m.interest fd
      (some { events := ((m.context fd).events.diff (.single event)).edge, data := data })) :
    m'.Tidy ∧ (m'.Mapped layout ↔ (m.context fd).events ≠ .single event ∧ data = layout.addr fd) := by
  refine ⟨h.update (h.lt_size (events_ne_none hevent)) hsize hcontext (htasks_without h fd _), ?_⟩
  rw [mapped_update_iff hlaw hcontext hinterest, wanted, ne_eq, ← diff_single_eq_none_iff hevent]
  change some _ = (if (m.context fd).events.diff (.single event) = .none then none else _) ↔ _
  split
  · next hnone => simp [hnone]
  · next hsome =>
    rw [and_iff_right hsome, Option.some.injEq, EpollEvent.mk.injEq]
    exact and_iff_right rfl

theorem delEvent_registered (h : m.Tidy) (hlaw : m.Mapped layout) (hin : (fd.val : Int) < intOfSize m.size)
    (hevent : (m.context fd).events.has event = true) :
    ∃ m', m.delEvent layout epollCtl fd event = .ok (true, m') ∧ m'.Tidy ∧
      (m'.Mapped layout ↔ (m.context fd).events ≠ .single event) := by
  have hne := events_ne_none hevent
  have hwithout : ({ m.context fd with events := (m.context fd).events.diff (.single event) } :
      FdContext).setEventContext none event = (m.context fd).without (.single event) := by
    cases event <;> rfl
  obtain ⟨m', hm'⟩ : ∃ m' : Manager, m' = { m with
      context := Function.update m.context fd ((m.context fd).without (.single event))
      interest := Function.update m.interest fd (some
        { events := ((m.context fd).events.diff (.single event)).edge, data := layout.addr fd })
      pendingEventCount := Word.subSize m.pendingEventCount 1 } := ⟨_, rfl⟩
  obtain ⟨htidy, hiff⟩ := mapped_remove_iff m' h hlaw hevent (by rw [hm']) (by rw [hm'])
    (by rw [hm'])
  refine ⟨m', ?_, htidy, by rw [hiff, and_iff_left rfl]⟩
  rw [delEvent, if_neg (Int.not_le.mpr hin)]
  simp only [hevent, Bool.not_true, Bool.false_eq_true, if_false, if_pos hne,
    epollCtl_mod (hlaw.isSome hne), hwithout, hm']
  rfl

theorem delEvent_unregistered (hevent : (m.context fd).events.has event = false) :
    m.delEvent layout epollCtl fd event = .ok (false, m) := by
  rw [delEvent]
  split
  · rfl
  · simp [hevent]

theorem cancelEvent_registered (h : m.Tidy) (hlaw : m.Mapped layout)
    (hin : (fd.val : Int) < intOfSize m.size) (hevent : (m.context fd).events.has event = true) :
    ∃ m', m.cancelEvent layout epollCtl fd event = .ok (true, m') ∧ m'.Tidy ∧
      (m'.Mapped layout ↔ (m.context fd).events ≠ .single event ∧
        dataFd layout.host (layout.addr fd) = BitVec.ofNat 32 fd.val) := by
  have hne := events_ne_none hevent
  obtain ⟨m₁, hm₁⟩ : ∃ m₁ : Manager, m₁ = { m with
      interest := Function.update m.interest fd (some
        { events := ((m.context fd).events.diff (.single event)).edge,
          data := setDataFd layout.host (layout.addr fd) (BitVec.ofNat 32 fd.val) }) } := ⟨_, rfl⟩
  have hcontext : m₁.context = m.context := by rw [hm₁]
  have hwaiting : m₁.Waiting := by
    intro fd' event'
    rw [hcontext]
    exact h.waiting fd' event'
  obtain ⟨m', hrun, htriggered⟩ := triggerPending_registered hwaiting (hcontext ▸ hevent)
  obtain ⟨htidy, hiff⟩ := mapped_remove_iff m' h hlaw hevent (by rw [htriggered.size, hm₁])
    (by rw [htriggered.context, hcontext]) (by rw [htriggered.interest, hm₁])
  refine ⟨m', ?_, htidy, by rw [hiff, setDataFd_eq_self_iff]⟩
  rw [cancelEvent, if_neg (Int.not_le.mpr hin)]
  simp only [hevent, Bool.not_true, Bool.false_eq_true, if_false, if_pos hne,
    epollCtl_mod (hlaw.isSome hne), ← hm₁, hrun]
  rfl

theorem cancelEvent_unregistered (hevent : (m.context fd).events.has event = false) :
    m.cancelEvent layout epollCtl fd event = .ok (false, m) := by
  rw [cancelEvent]
  split
  · rfl
  · simp [hevent]

theorem interest_triggerPending (hrun : m.triggerPending fd event = .ok m') :
    m'.interest = m.interest := by
  rw [triggerPending, triggerEvent] at hrun
  dsimp only at hrun
  split at hrun
  · split at hrun
    · cases hrun
    · cases hrun
      rfl
  · cases hrun

theorem interest_triggerIf {c : Bool} (hrun : m.triggerIf c fd event = .ok m') :
    m'.interest = m.interest := by
  rw [triggerIf] at hrun
  split at hrun
  · exact interest_triggerPending hrun
  · cases hrun
    rfl

theorem cancelAllEvent_unregistered (hevents : (m.context fd).events = .none) :
    m.cancelAllEvent layout epollCtl fd = .ok (false, m) := by
  rw [cancelAllEvent]
  split
  · rfl
  · simp [hevents]

/-- `cancelAllEvent` leaves the descriptor in the interest map, asking for nothing. -/
theorem interest_cancelAllEvent (hlaw : m.Mapped layout) (hin : (fd.val : Int) < intOfSize m.size)
    (hevents : (m.context fd).events ≠ .none) {b : Bool}
    (hrun : m.cancelAllEvent layout epollCtl fd = .ok (b, m')) :
    m'.interest fd = some { events := ⟨false, false, false, false, false⟩, data := layout.addr fd } := by
  rw [cancelAllEvent, if_neg (Int.not_le.mpr hin)] at hrun
  simp only [if_neg hevents, epollCtl_mod (hlaw.isSome hevents)] at hrun
  obtain ⟨m₁, hread, hrun⟩ := Outcome.bind_eq_ok.mp hrun
  obtain ⟨m₂, hwrite, hrun⟩ := Outcome.bind_eq_ok.mp hrun
  split at hrun
  · cases hrun
    rw [interest_triggerIf hwrite, interest_triggerIf hread]
    exact Function.update_self _ _ _
  · cases hrun

end Remove

section Dispatch

variable {first : BitVec 64} {e : Entry} {real left : Events}

theorem foldlM_tidy (hfirst : layout.resolve first = some fd) {entries : List Entry}
    (hgenuine : ∀ e ∈ entries, Genuine layout e) (h : m.Tidy) (hm : Seated fd m)
    (hrun : entries.foldlM (round layout first) m = .ok m') : m'.Tidy := by
  induction entries generalizing m with
  | nil =>
      cases hrun
      exact h
  | cons e entries ih =>
      obtain ⟨hgenuine, hgenuines⟩ := List.forall_mem_cons.mp hgenuine
      rw [List.foldlM_cons] at hrun
      by_cases hpass : Passes (m.context fd).events e
      · rw [round_passes hfirst hgenuine hpass] at hrun
        exact ih hgenuines h hm hrun
      · rw [Passes, not_or] at hpass
        have hseen := mt hgenuine.dataFd_eq_iff.mp hpass.1
        rcases round_cases hfirst hm hseen hpass.2 with ⟨-, m₁, hround, htook⟩ | ⟨-, hcrash⟩
        · rw [hround] at hrun
          have hlt : fd.val < m.size := by
            apply h.lt_size
            intro hnone
            apply hpass.2
            rw [hnone]
            simp [Events.inter, Events.none]
          exact ih hgenuines (h.update hlt htook.size htook.context (htasks_without h fd _))
            (htook.seated h.waiting) hrun
        · rw [hcrash] at hrun
          cases hrun

/-- A round keeps the law if it takes everything or carries the context's own address. -/
theorem Took.mapped {data : BitVec 64} (h : Took fd real data m m') (hlaw : m.Mapped layout)
    (hdata : (m.context fd).events.diff real = .none ∨ data = layout.addr fd) : m'.Mapped layout := by
  rw [mapped_update_iff hlaw h.context h.interest, wanted]
  change (if (m.context fd).events.diff real = .none then none else _)
    = if (m.context fd).events.diff real = .none then none else _
  split
  · rfl
  · next hleft =>
    rw [hdata.resolve_left hleft]
    rfl

/-- What waits for at most one event is either missed or covered. -/
theorem eq_of_diff_eq_none (hone : (left.read && left.write) = false) (hhit : real.inter left ≠ .none)
    (hsub : real.diff left = .none) : real = left := by
  obtain ⟨lr, lw⟩ := left
  obtain ⟨rr, rw⟩ := real
  revert hone hhit hsub
  cases lr <;> cases lw <;> cases rr <;> cases rw <;> decide

theorem diff_self_eq_none (left : Events) : left.diff left = .none := by
  simp [Events.diff, Events.none]

/-- The rounds after the first keep the law just if they spare the first context. -/
theorem mapped_rest_iff (hfirst : layout.resolve first = some fd) {rest : List Entry}
    (hgenuine : ∀ e ∈ rest, Genuine layout e) (hlaw : m.Mapped layout) (hm : Seated fd m)
    (hone : ((m.context fd).events.read && (m.context fd).events.write) = false) :
    Live (Mapped layout) (rest.foldlM (round layout first) m) ↔
      Spares (m.context fd).events rest := by
  induction rest with
  | nil => exact iff_of_true hlaw trivial
  | cons e rest ih =>
      obtain ⟨hgenuine, hgenuines⟩ := List.forall_mem_cons.mp hgenuine
      rw [List.foldlM_cons, Spares]
      cases hsource : e.source with
      | pipe =>
          rw [round_passes hfirst hgenuine (Or.inl hsource)]
          exact ih hgenuines
      | socket fd' =>
          have hnotPipe : e.source ≠ .pipe := by simp [hsource]
          by_cases hmiss : (e.realEvent (m.context fd).events).inter (m.context fd).events = .none
          · rw [round_passes hfirst hgenuine (Or.inr hmiss)]
            simp only [if_pos hmiss]
            exact ih hgenuines
          · simp only [if_neg hmiss]
            have hseen := mt hgenuine.dataFd_eq_iff.mp hnotPipe
            rcases round_cases hfirst hm hseen hmiss with
              ⟨hsub, m₁, hround, htook⟩ | ⟨hsub, hcrash⟩
            · have hall := eq_of_diff_eq_none hone hmiss hsub
              have hnone : (m.context fd).events.diff (e.realEvent (m.context fd).events) = .none := by
                rw [hall]
                exact diff_self_eq_none _
              have hdone : (m₁.context fd).events = .none := by
                rw [htook.context, Function.update_self]
                exact hnone
              have hpasses : ∀ e' ∈ rest, Passes (m₁.context fd).events e' := by
                intro e' _
                right
                rw [hdone]
                simp [Events.inter, Events.none]
              rw [hround]
              refine iff_of_true ?_ hall
              change Live (Mapped layout) (rest.foldlM (round layout first) m₁)
              rw [foldlM_passes hfirst hgenuines hpasses]
              exact htook.mapped hlaw (Or.inl hnone)
            · rw [hcrash]
              refine iff_of_false (fun h => h) ?_
              intro hall
              rw [hall] at hsub
              exact hsub (diff_self_eq_none _)

/-- Under the law an entry of a batch carries its own context and reports something that is waited
for, and nothing else. -/
theorem Returned.entry {batch : List Entry} (h : m.Returned layout batch) (hlaw : m.Mapped layout)
    (he : e ∈ batch) (hsource : e.source = .socket fd) :
    e.event.data = layout.addr fd ∧ (m.interest fd).isSome = true ∧
      (e.realEvent (m.context fd).events).diff (m.context fd).events = .none ∧
      (e.realEvent (m.context fd).events).inter (m.context fd).events ≠ .none := by
  obtain ⟨want, hwant, hdata, hin, hout, hany⟩ := h.socket e he fd hsource
  have hlawFd := hlaw fd
  rw [hwant, wanted] at hlawFd
  split at hlawFd
  · cases hlawFd
  · next hevents =>
    cases Option.some.inj hlawFd
    refine ⟨hdata, by rw [hwant]; rfl, ?_, ?_⟩
    · rw [Entry.realEvent]
      generalize (m.context fd).events = waiting at hin hout
      obtain ⟨r, w⟩ := waiting
      simp only [Events.edge] at hin hout
      split
      · simp_all only [Events.diff, Events.union, Events.none]
        simp only [Events.mk.injEq, Bool.and_eq_false_iff, Bool.or_eq_false_iff]
        revert hin hout
        cases e.event.events.epollin <;> cases e.event.events.epollout <;> cases r <;> cases w <;> simp
      · simp_all [Events.diff, Events.none]
    · rw [Entry.realEvent]
      generalize (m.context fd).events = waiting at hin hout hevents
      obtain ⟨r, w⟩ := waiting
      simp only [Events.edge] at hin hout
      split
      · intro hnone
        apply hevents
        simp_all [Events.inter, Events.union, Events.none]
      · intro hnone
        simp_all [Events.inter, Events.none]

theorem Returned.genuine {batch : List Entry} (h : m.Returned layout batch) (hlaw : m.Mapped layout) :
    ∀ e ∈ batch, Genuine layout e := by
  intro e he
  rw [Genuine]
  split
  · next hsource => exact h.pipe e he hsource
  · next fd hsource => exact (h.entry hlaw he hsource).1

theorem dispatch_spec {batch : List Entry} (h : m.Tidy) (hlaw : m.Mapped layout)
    (hbatch : m.Returned layout batch) :
    (Live (Mapped layout) (m.dispatch layout (batch.map Entry.exact)) ↔ m.Orderly batch) ∧
      ∀ m', m.dispatch layout (batch.map Entry.exact) = .ok m' → m'.Tidy := by
  cases batch with
  | nil =>
      refine ⟨iff_of_true hlaw trivial, ?_⟩
      rintro m' hrun
      cases hrun
      exact h
  | cons e rest =>
      have hgenuine := hbatch.genuine hlaw
      rw [dispatch_exact, Orderly]
      cases hsource : e.source with
      | pipe =>
          have hfirst : layout.resolve e.event.data = none := by
            rw [hbatch.pipe e List.mem_cons_self hsource, layout.resolve_pipeData]
          have hpipes : ∀ m', (e :: rest).foldlM (round layout e.event.data) m = .ok m' →
              m' = m ∧ ∀ e' ∈ rest, e'.source = .pipe := by
            intro m' hrun
            have hall := foldlM_wild hfirst hgenuine hrun
            rw [foldlM_pipes hgenuine hall] at hrun
            cases hrun
            exact ⟨rfl, (List.forall_mem_cons.mp hall).2⟩
          refine ⟨⟨?_, ?_⟩, ?_⟩
          · intro hlive
            cases hrun : (e :: rest).foldlM (round layout e.event.data) m with
            | error crash =>
                rw [hrun] at hlive
                exact hlive.elim
            | ok m' => exact (hpipes m' hrun).2
          · intro hrest
            rw [foldlM_pipes hgenuine (List.forall_mem_cons.mpr ⟨hsource, hrest⟩)]
            exact hlaw
          · intro m' hrun
            rw [(hpipes m' hrun).1]
            exact h
      | socket fd =>
          obtain ⟨hdata, hin, hsub, hhit⟩ := hbatch.entry hlaw List.mem_cons_self hsource
          have hfirst : layout.resolve e.event.data = some fd := by
            rw [hdata, layout.resolve_addr]
          have hm : Seated fd m := ⟨h.waiting, fun _ => hin⟩
          refine ⟨?_, fun m' hrun => foldlM_tidy hfirst hgenuine h hm hrun⟩
          have hseen : dataFd layout.host e.event.data ≠ layout.pipefd := by
            rw [hdata]
            exact layout.dataFd_addr fd
          rcases round_cases hfirst hm hseen hhit with ⟨-, m₁, hround, htook⟩ | ⟨hnot, -⟩
          · have hleft : (m₁.context fd).events
                = (m.context fd).events.diff (e.realEvent (m.context fd).events) := by
              rw [htook.context, Function.update_self]
              rfl
            have hone : ((m₁.context fd).events.read && (m₁.context fd).events.write) = false := by
              rw [hleft]
              generalize e.realEvent (m.context fd).events = real at hhit
              generalize (m.context fd).events = waiting at hhit
              obtain ⟨wr, ww⟩ := waiting
              obtain ⟨rr, rw⟩ := real
              revert hhit
              cases wr <;> cases ww <;> cases rr <;> cases rw <;> decide
            rw [List.foldlM_cons, hround]
            have hrest := mapped_rest_iff hfirst (List.forall_mem_cons.mp hgenuine).2
              (htook.mapped hlaw (Or.inr hdata)) (htook.seated h.waiting) hone
            rw [hleft] at hrest
            exact hrest
          · exact absurd hsub hnot

end Dispatch

theorem live_law_iff {r : Except Crash Manager} (htidy : ∀ m', r = .ok m' → m'.Tidy) :
    Live (Law layout) r ↔ Live (Mapped layout) r := by
  cases r with
  | error crash => exact Iff.rfl
  | ok m => exact (htidy m rfl).law_iff

/-- One step, exactly: under the law it keeps the law just if `Keeps` says so. -/
theorem perform_spec (h : m.Tidy) (hlaw : m.Law layout) {op : Op} (hpossible : m.Possible layout op) :
    (Live (Law layout) (m.perform layout op) ↔ m.Keeps layout op) ∧
      ∀ m', m.perform layout op = .ok m' → m'.Law layout → m'.Tidy := by
  have hmapped := h.law_iff.mp hlaw
  have hunchanged : ∀ {r : Except Crash (Bool × Manager)} {keeps : Prop}, r = .ok (false, m) → keeps →
      (Live (Law layout) (Prod.snd <$> r) ↔ keeps) ∧
        ∀ m', Prod.snd <$> r = .ok m' → m'.Law layout → m'.Tidy := by
    rintro _ keeps rfl hkeeps
    refine ⟨iff_of_true hlaw hkeeps, ?_⟩
    rintro _ ⟨⟩ -
    exact h
  have hdone : ∀ {r : Except Crash (Bool × Manager)} {m₁ : Manager} {keeps : Prop}, r = .ok (true, m₁) →
      m₁.Tidy → (m₁.Mapped layout ↔ keeps) → (Live (Law layout) (Prod.snd <$> r) ↔ keeps) ∧
        ∀ m', Prod.snd <$> r = .ok m' → m'.Law layout → m'.Tidy := by
    rintro _ m₁ keeps rfl htidy hiff
    refine ⟨htidy.law_iff.trans hiff, ?_⟩
    rintro _ ⟨⟩ -
    exact htidy
  cases op with
  | addEvent fd event task =>
      by_cases hfits : m.Fits fd
      · obtain ⟨m₁, hrun, htidy, hmapped₁⟩ := addEvent_spec h hmapped task hpossible hfits
        exact hdone hrun htidy (iff_of_true hmapped₁ hfits)
      · have hbroken : ¬ Live (Law layout) (m.perform layout (.addEvent fd event task)) :=
          not_law_of_not_fits hmapped hfits
        exact ⟨iff_of_false hbroken hfits,
          fun m' hrun hlaw' => absurd (live_iff.mpr ⟨m', hrun, hlaw'⟩) hbroken⟩
  | delEvent fd event =>
      by_cases hin : (fd.val : Int) < intOfSize m.size
      · cases hevent : (m.context fd).events.has event with
        | false =>
            refine hunchanged (delEvent_unregistered hevent) fun _ hsingle => ?_
            rw [hsingle, Events.has_single_self] at hevent
            cases hevent
        | true =>
            obtain ⟨m₁, hrun, htidy, hiff⟩ := delEvent_registered h hmapped hin hevent
            exact hdone hrun htidy (hiff.trans ⟨fun hkept _ => hkept, fun hkept => hkept hin⟩)
      · exact hunchanged (if_pos (Int.not_lt.mp hin)) fun hlt => absurd hlt hin
  | cancelEvent fd event =>
      by_cases hin : (fd.val : Int) < intOfSize m.size
      · cases hevent : (m.context fd).events.has event with
        | false =>
            refine hunchanged (cancelEvent_unregistered hevent) fun _ hhas => ?_
            rw [hevent] at hhas
            cases hhas
        | true =>
            obtain ⟨m₁, hrun, htidy, hiff⟩ := cancelEvent_registered h hmapped hin hevent
            refine hdone hrun htidy (hiff.trans ?_)
            exact ⟨fun hkept _ _ => hkept, fun hkept => hkept hin hevent⟩
      · exact hunchanged (if_pos (Int.not_lt.mp hin)) fun hlt => absurd hlt hin
  | cancelAllEvent fd =>
      by_cases hin : (fd.val : Int) < intOfSize m.size
      · by_cases hevents : (m.context fd).events = .none
        · exact hunchanged (cancelAllEvent_unregistered hevents) fun _ => hevents
        · have hbroken : ¬ Live (Law layout) (m.perform layout (.cancelAllEvent fd)) := by
            intro hlive
            obtain ⟨m', hrun, hlaw'⟩ := live_iff.mp hlive
            obtain ⟨⟨b, _⟩, hcancel, rfl⟩ := Outcome.map_eq_ok.mp hrun
            have hinterest := interest_cancelAllEvent hmapped hin hevents hcancel
            rw [hlaw' fd] at hinterest
            split at hinterest
            · have hedge := congrArg (fun want => want.events.epollet) (Option.some.inj hinterest)
              cases hedge
            · cases hinterest
          refine ⟨iff_of_false hbroken fun hkept => hevents (hkept hin), ?_⟩
          exact fun m' hrun hlaw' => absurd (live_iff.mpr ⟨m', hrun, hlaw'⟩) hbroken
      · exact hunchanged (if_pos (Int.not_lt.mp hin)) fun hlt => absurd hlt hin
  | dispatch batch =>
      obtain ⟨hiff, htidy⟩ := dispatch_spec h hmapped hpossible
      exact ⟨(live_law_iff htidy).trans hiff, fun m' hrun _ => htidy m' hrun⟩

section Runs

theorem tidy_init : init.Tidy := by
  refine ⟨fun _ _ => rfl, ?_⟩
  intro fd event
  cases event <;> rfl

theorem law_init : init.Law layout := by
  rw [tidy_init.law_iff]
  exact fun _ => rfl

theorem succeeds_of_keeps (h : m.Tidy) (hlaw : m.Law layout) {op : Op} (hpossible : m.Possible layout op)
    (hkeeps : m.Keeps layout op) : m.Succeeds layout op := by
  cases op with
  | addEvent fd event task =>
      obtain ⟨m', hrun, -⟩ := addEvent_spec h (h.law_iff.mp hlaw) task hpossible hkeeps
      exact ⟨m', hrun⟩
  | _ => trivial

/-- A run from the constructor keeps the law in every state and adds every event it is asked to, just
if all its steps are of the kind that keeps the law. -/
theorem law_run_iff_keeps (layout : Layout) (ops : List Op)
    (hpossible : AllSteps (attempt (perform layout)) (WhenLive (Possible layout)) (.ok init) ops) :
    (AllStates (attempt (perform layout)) (Live (Law layout)) (.ok init) ops ∧
        AllSteps (attempt (perform layout)) (WhenLive (Succeeds layout)) (.ok init) ops) ↔
      AllSteps (attempt (perform layout)) (WhenLive (Keeps layout)) (.ok init) ops := by
  have hinv : ∀ (m : Manager) op m', m.Tidy → m.Law layout → m.Possible layout op →
      m.perform layout op = .ok m' → m'.Law layout → m'.Tidy :=
    fun m op m' h hlaw hop hrun => (perform_spec h hlaw hop).2 m' hrun
  rw [← live_allStates_iff_allSteps hinv (fun m op h hlaw hop => (perform_spec h hlaw hop).1) tidy_init
    law_init hpossible]
  refine and_iff_left_of_imp fun hlaw => ?_
  refine live_allSteps_of_allStates hinv (fun m op h hlawm hop hnext => ?_) tidy_init hpossible hlaw
  exact succeeds_of_keeps h hlawm hop ((perform_spec h hlawm hop).1.mp hnext)

end Runs

end Exact

section Examples

theorem intOfSize_size (hsize : m.size < 2 ^ 31) : intOfSize m.size = (m.size : Int) :=
  intOfSize_eq_self_iff.mpr hsize

theorem grown_of_lt (hsize : m.size < 2 ^ 31) (hfd : fd.val < m.size) : m.grown fd = m := by
  rw [grown, intOfSize_size hsize, if_pos]
  exact Int.ofNat_lt.mpr hfd

theorem fits_of_lt (hsize : m.size < 2 ^ 31) (hfd : fd.val < m.size) : m.Fits fd := by
  intro hlarge
  rw [intOfSize_size hsize] at hlarge
  exact absurd (Int.ofNat_lt.mpr hfd) (Int.not_lt.mpr hlarge)

/-- `addEvent` of a descriptor that is in the table. -/
theorem attempt_addEvent (hsize : m.size < 2 ^ 31) (hfd : fd.val < m.size) {event : Event} {task : Task}
    {b : Bool} (hrun : m.registerEvent layout epollCtl fd event task = .ok (b, m')) :
    attempt (perform layout) (.ok m) (.addEvent fd event task) = .ok m' := by
  rw [attempt_ok, perform, addEvent, grown_of_lt hsize hfd, hrun]
  rfl

/-- A fiber waits to read from descriptor 5. -/
def reading : Manager :=
  { init with
    context := Function.update init.context 5
      { events := .single .read, read := some (.fiber 1), write := none }
    interest := Function.update init.interest 5
      (some { events := (Events.single .read).edge, data := Layout.spaced.addr 5 })
    pendingEventCount := 1 }

theorem attempt_reading :
    attempt (perform Layout.spaced) (.ok init) (.addEvent 5 .read (.fiber 1)) = .ok reading := by
  have hrun : init.registerEvent Layout.spaced epollCtl 5 .read (.fiber 1) = .ok (true, reading) := rfl
  exact attempt_addEvent (by decide) (by decide) hrun

/-- Two descriptors are waited for, and one of them is ready. -/
theorem law_run_iff_keeps_ready :
    AllStates (attempt (perform Layout.spaced)) (Live (Law Layout.spaced)) (.ok init)
      [.addEvent 5 .read (.fiber 1), .addEvent 6 .write (.fiber 2), .dispatch [readable 5]] := by
  have hbatch : ∀ e ∈ [readable 5], ∀ fd, e.source = .socket fd → fd = 5 ∧ e = readable 5 := by
    intro e he fd hsource
    rw [List.mem_singleton.mp he] at hsource ⊢
    exact ⟨(Source.socket.inj hsource).symm, rfl⟩
  obtain ⟨m, hregister⟩ : ∃ m, reading.registerEvent Layout.spaced epollCtl 6 .write (.fiber 2)
      = .ok (true, m) := ⟨_, rfl⟩
  have hboth : attempt (perform Layout.spaced) (.ok reading) (.addEvent 6 .write (.fiber 2)) = .ok m :=
    attempt_addEvent (by decide) (by decide) hregister
  refine ((law_run_iff_keeps Layout.spaced _ ?_).mpr ?_).1
  · rw [allSteps_cons, attempt_reading, allSteps_cons, hboth, allSteps_cons]
    refine ⟨rfl, rfl, ⟨?_, ?_, List.nodup_singleton _⟩, allSteps_nil⟩
    · intro e he hpipe
      rw [List.mem_singleton.mp he] at hpipe
      cases hpipe
    · intro e he fd hsource
      obtain ⟨rfl, rfl⟩ := hbatch e he fd hsource
      cases hregister
      exact ⟨_, rfl, rfl, by decide, by decide, rfl⟩
  · rw [allSteps_cons, attempt_reading, allSteps_cons, hboth, allSteps_cons]
    exact ⟨fits_of_lt (by decide) (by decide), fits_of_lt (by decide) (by decide), trivial, allSteps_nil⟩

/-- An event added, deleted and added again: the descriptor stays in the interest map when nothing is
registered any more, and the second `addEvent` fails. -/
theorem not_law_run_add_del_add :
    AllSteps (attempt (perform Layout.spaced)) (WhenLive (Possible Layout.spaced)) (.ok init)
        [.addEvent 5 .read (.fiber 1), .delEvent 5 .read, .addEvent 5 .read (.fiber 1)] ∧
      ¬ AllStates (attempt (perform Layout.spaced)) (Live (Law Layout.spaced)) (.ok init)
        [.addEvent 5 .read (.fiber 1), .delEvent 5 .read, .addEvent 5 .read (.fiber 1)] ∧
      ¬ AllSteps (attempt (perform Layout.spaced)) (WhenLive (Succeeds Layout.spaced)) (.ok init)
        [.addEvent 5 .read (.fiber 1), .delEvent 5 .read, .addEvent 5 .read (.fiber 1)] := by
  obtain ⟨m, hm⟩ : ∃ m : Manager, m = { reading with
      context := Function.update reading.context 5 .fresh
      interest := Function.update reading.interest 5
        (some { events := Events.none.edge, data := Layout.spaced.addr 5 })
      pendingEventCount := 0 } := ⟨_, rfl⟩
  have hdel : attempt (perform Layout.spaced) (.ok reading) (.delEvent 5 .read) = .ok m := by
    rw [attempt_ok, perform, delEvent, if_neg (by rw [intOfSize_size (by decide)]; decide), hm]
    rfl
  have hstale : (m.interest 5).isSome = true ∧ (m.context 5).events = .none := by
    rw [hm]
    exact ⟨rfl, rfl⟩
  simp only [allSteps_cons, allStates_cons, attempt_reading, hdel]
  refine ⟨⟨rfl, trivial, ?_, allSteps_nil⟩, ?_, ?_⟩
  · exact congrArg (Events.has · .read) hstale.2
  · rintro ⟨-, -, hlaw, -⟩
    have hfd : m.interest 5 = none := by
      rw [hlaw 5, if_neg fun hin => hin.2 hstale.2]
    rw [hfd] at hstale
    cases hstale.1
  · rintro ⟨-, -, ⟨m', hrun⟩, -⟩
    have hsize : m.size < 2 ^ 31 ∧ (5 : Fd).val < m.size := by
      rw [hm]
      decide
    rw [addEvent, grown_of_lt hsize.1 hsize.2, hm] at hrun
    have hfails := congrArg (Except.map Prod.fst) hrun
    cases hfails

end Examples

end AsyncRPC.IOManager.Manager
