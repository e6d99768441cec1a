import AsyncRPC.EpollFailure
import AsyncRPC.Proof.InterestMap

/-!
# Calls that fail and what they leave

A call that returns false leaves the table alone, except `addEvent`, which sets the bit before it asks
the kernel. As long as no `addEvent` is refused, bits, contexts and count move together.
-/

namespace AsyncRPC.IOManager

open Transition Word

namespace Events

theorem has_diff_single (events : Events) (event event' : Event) :
    (events.diff (.single event)).has event' = (events.has event' && decide (event' ≠ event)) := by
  cases event <;> cases event' <;> simp [Events.diff, Events.single, Events.has]

theorem has_union_single (events : Events) (event event' : Event) :
    ((Events.single event).union events).has event' = (events.has event' || decide (event' = event)) := by
  cases event <;> cases event' <;> simp [Events.union, Events.single, Events.has]

end Events

namespace Manager

variable {layout : Layout} {m m' : Manager} {fd : Fd} {event : Event}

section Calls

theorem Unchanged.refl (m : Manager) : m.Unchanged m where
  context := by
    intro fd hfd
    rw [if_pos hfd]
  pendingEventCount := rfl

theorem context_grown (hfd : fd.val < (m.grown fd).size) :
    (m.grown fd).context fd = if fd.val < m.size then m.context fd else .fresh := by
  rcases grown_cases m fd with ⟨hsame, -⟩ | hresize
  · rw [hsame] at hfd ⊢
    rw [if_pos hfd]
  · rw [hresize] at hfd ⊢
    rw [context_contextResize]
    by_cases hold : fd.val < m.size
    · rw [if_pos hold, if_neg]
      exact fun h => absurd h.1 (Nat.not_le.mpr hold)
    · rw [if_neg hold, if_pos]
      exact ⟨Nat.not_lt.mp hold, hfd⟩

theorem size_setContext (m : Manager) (fd : Fd) (context : FdContext) :
    (m.setContext fd context).size = m.size := rfl

theorem context_setContext (m : Manager) (fd : Fd) (context : FdContext) :
    (m.setContext fd context).context = Function.update m.context fd context := rfl

theorem call_addEvent (m : Manager) (fd : Fd) (event : Event) (task : Task) (ctl : EpollCtl) :
    m.call layout (.addEvent fd event task ctl)
      = (m.grown fd).registerEvent layout ctl fd event task := rfl

theorem registerEvent_refused {ctl : EpollCtl} (task : Task) (hsize : fd.val < m.size)
    (hnew : (m.context fd).events.has event = false)
    (hctl : ctl m.interest (m.addRequest layout fd event).1 fd (m.addRequest layout fd event).2
      = none) :
    m.registerEvent layout ctl fd event task = .ok (false, m.setContext fd
      { m.context fd with events := (Events.single event).union (m.context fd).events }) := by
  rw [registerEvent]
  simp only [if_neg (Nat.not_le.mpr hsize), hnew, Bool.false_eq_true, if_false, hctl]

theorem registerEvent_eq_ok {ctl : EpollCtl} {task : Task} {b : Bool}
    (hrun : m.registerEvent layout ctl fd event task = .ok (b, m')) :
    fd.val < m.size ∧ (m.context fd).events.has event = false ∧
      (b = false ∧ ctl m.interest (m.addRequest layout fd event).1 fd
          (m.addRequest layout fd event).2 = none ∨
        b = true ∧ ∃ interest, m' = { m.setContext fd (({ m.context fd with
          events := (Events.single event).union (m.context fd).events } :
            FdContext).setEventContext (some task) event) with
          interest := interest
          pendingEventCount := addSize m.pendingEventCount 1 }) := by
  rw [registerEvent] at hrun
  dsimp only at hrun
  split at hrun
  · cases hrun
  · next hsize =>
    refine ⟨Nat.not_le.mp hsize, ?_⟩
    split at hrun
    · cases hrun
    · next hnew =>
      refine ⟨by simpa using hnew, ?_⟩
      split at hrun
      · next hctl =>
        cases hrun
        exact Or.inl ⟨rfl, hctl⟩
      · split at hrun
        · cases hrun
        · cases hrun
          exact Or.inr ⟨rfl, _, rfl⟩

theorem Grants.ne_false {ctl : EpollCtl} (h : m.Grants layout ctl fd event) {task : Task} :
    m.registerEvent layout ctl fd event task ≠ .ok (false, m') := by
  intro hrun
  obtain ⟨hsize, hnew, ⟨-, hctl⟩ | ⟨hb, -⟩⟩ := registerEvent_eq_ok hrun
  · have hsome := h hsize hnew
    rw [hctl] at hsome
    cases hsome
  · cases hb

theorem call_delEvent_cases {ctl : EpollCtl} {b : Bool}
    (hrun : m.call layout (.delEvent fd event ctl) = .ok (b, m')) :
    (b = false ∧ m' = m) ∨ (b = true ∧ (m.context fd).events.has event = true ∧ m'.size = m.size ∧
      m'.context = Function.update m.context fd ((m.context fd).without (.single event)) ∧
      m'.pendingEventCount = subSize m.pendingEventCount 1) := by
  rw [call, Manager.delEvent] at hrun
  dsimp only at hrun
  split at hrun
  · cases hrun
    exact Or.inl ⟨rfl, rfl⟩
  · split at hrun
    · cases hrun
      exact Or.inl ⟨rfl, rfl⟩
    · next hevent =>
      split at hrun
      · cases hrun
        exact Or.inl ⟨rfl, rfl⟩
      · cases hrun
        refine Or.inr ⟨rfl, by simpa using hevent, rfl, ?_, rfl⟩
        rw [context_setContext]
        congr 1
        cases event <;> rfl

theorem call_cancelEvent_cases {ctl : EpollCtl} {b : Bool}
    (hrun : m.call layout (.cancelEvent fd event ctl) = .ok (b, m')) :
    (b = false ∧ m' = m) ∨ (b = true ∧ ∃ interest : Interest,
      ({ m with interest := interest } : Manager).triggerPending fd event = .ok m') := by
  rw [call, Manager.cancelEvent] at hrun
  dsimp only at hrun
  split at hrun
  · cases hrun
    exact Or.inl ⟨rfl, rfl⟩
  · split at hrun
    · cases hrun
      exact Or.inl ⟨rfl, rfl⟩
    · split at hrun
      · cases hrun
        exact Or.inl ⟨rfl, rfl⟩
      · obtain ⟨_, htrigger, hlast⟩ := Outcome.bind_eq_ok.mp hrun
        cases hlast
        exact Or.inr ⟨rfl, _, htrigger⟩

theorem call_cancelAllEvent_cases {ctl : EpollCtl} {b : Bool}
    (hrun : m.call layout (.cancelAllEvent fd ctl) = .ok (b, m')) :
    (b = false ∧ m' = m) ∨ (b = true ∧ ∃ (interest : Interest) (read write : Bool) (mid : Manager),
      ({ m with interest := interest } : Manager).triggerIf read fd .read = .ok mid ∧
      mid.triggerIf write fd .write = .ok m') := by
  rw [call, Manager.cancelAllEvent] at hrun
  dsimp only at hrun
  split at hrun
  · cases hrun
    exact Or.inl ⟨rfl, rfl⟩
  · split at hrun
    · cases hrun
      exact Or.inl ⟨rfl, rfl⟩
    · split at hrun
      · cases hrun
        exact Or.inl ⟨rfl, rfl⟩
      · obtain ⟨mid, hread, hrun⟩ := Outcome.bind_eq_ok.mp hrun
        obtain ⟨_, hwrite, hlast⟩ := Outcome.bind_eq_ok.mp hrun
        split at hlast
        · cases hlast
          exact Or.inr ⟨rfl, _, _, _, mid, hread, hwrite⟩
        · cases hlast

/-- Only `addEvent` changes something and returns false. -/
theorem eq_of_call_false {c : Call} (hrun : m.call layout c = .ok (false, m'))
    (hother : ∀ fd event task ctl, c ≠ .addEvent fd event task ctl) : m' = m := by
  cases c with
  | addEvent fd event task ctl => exact absurd rfl (hother fd event task ctl)
  | delEvent fd event ctl =>
      obtain ⟨-, hsame⟩ | ⟨hb, -⟩ := call_delEvent_cases hrun
      · exact hsame
      · cases hb
  | cancelEvent fd event ctl =>
      obtain ⟨-, hsame⟩ | ⟨hb, -⟩ := call_cancelEvent_cases hrun
      · exact hsame
      · cases hb
  | cancelAllEvent fd ctl =>
      obtain ⟨-, hsame⟩ | ⟨hb, -⟩ := call_cancelAllEvent_cases hrun
      · exact hsame
      · cases hb

/-- A call that returns false leaves the books as they were, just if it is not an `addEvent` whose
`epoll_ctl` fails. -/
theorem unchanged_iff_granted (m : Manager) (c : Call) :
    (∀ m', m.call layout c = .ok (false, m') → m.Unchanged m') ↔ m.Granted layout c := by
  have hother : (∀ fd event task ctl, c ≠ .addEvent fd event task ctl) →
      ∀ m', m.call layout c = .ok (false, m') → m.Unchanged m' := by
    intro hc m' hrun
    rw [eq_of_call_false hrun hc]
    exact Unchanged.refl m
  cases c with
  | addEvent fd event task ctl =>
      rw [call_addEvent]
      constructor
      · intro hall hsize hnew
        by_contra hrefused
        have hctl := Option.not_isSome_iff_eq_none.mp hrefused
        have hafter := (hall _ (registerEvent_refused task hsize hnew hctl)).context fd
        have hsame := hafter (by rw [size_setContext]; exact hsize)
        -- the bit is set, where it was clear or there was no context
        rw [context_setContext, Function.update_self, ← context_grown hsize] at hsame
        have hbit := congrArg (fun context => context.events.has event) hsame
        simp only [Events.has_union_single, hnew] at hbit
        simp at hbit
      · intro hgranted m' hrun
        exact absurd hrun (Grants.ne_false hgranted)
  | delEvent fd event ctl => exact iff_of_true (hother fun _ _ _ _ => Call.noConfusion) trivial
  | cancelEvent fd event ctl => exact iff_of_true (hother fun _ _ _ _ => Call.noConfusion) trivial
  | cancelAllEvent fd ctl => exact iff_of_true (hother fun _ _ _ _ => Call.noConfusion) trivial

end Calls

section Books

theorem mem_registered {p : Fd × Event} :
    p ∈ m.registered ↔ p.1.val < m.size ∧ (m.context p.1).events.has p.2 = true := Iff.rfl

instance : Fintype Event where
  elems := {.read, .write}
  complete event := by cases event <;> decide

theorem ncard_registered_lt (m : Manager) : m.registered.ncard + 1 < 2 ^ 64 := by
  have hevents : Nat.card Event = 2 := by
    rw [Nat.card_eq_fintype_card]
    rfl
  have hcard : m.registered.ncard ≤ 2 ^ 31 * 2 := by
    calc m.registered.ncard ≤ Nat.card (Fd × Event) := Set.ncard_le_card _
      _ = 2 ^ 31 * 2 := by rw [Nat.card_prod, Nat.card_fin, hevents]
  omega

/-- The books with what they rest on. -/
structure Counted (m : Manager) : Prop where
  tidy : m.Tidy
  count : m.pendingEventCount = m.registered.ncard

theorem Counted.booked (h : m.Counted) : m.Booked where
  count := h.count
  empty := by
    intro fd _ event
    rw [← h.tidy.waiting fd event, Option.isSome_eq_false_iff, Option.isNone_iff_eq_none]

theorem counted_init : Manager.init.Counted where
  tidy := ⟨fun _ _ => rfl, fun _ event => by cases event <;> rfl⟩
  count := by
    have hempty : Manager.init.registered = ∅ := by
      apply Set.eq_empty_of_forall_notMem
      rintro ⟨fd, event⟩ hmem
      have hbit := (mem_registered.mp hmem).2
      cases event <;> cases hbit
    rw [hempty, Set.ncard_empty]
    rfl

/-- The books are not about the kernel. -/
theorem Counted.interest (h : m.Counted) (interest : Interest) :
    ({ m with interest := interest } : Manager).Counted where
  tidy := ⟨h.tidy.outside, h.tidy.waiting⟩
  count := h.count

/-- The bit of one context is cleared with its task and counted off. -/
theorem Counted.remove (h : m.Counted) (hevent : (m.context fd).events.has event = true)
    (hsize : m'.size = m.size)
    (hcontext : m'.context = Function.update m.context fd ((m.context fd).without (.single event)))
    (hcount : m'.pendingEventCount = subSize m.pendingEventCount 1) : m'.Counted := by
  have hfd := h.tidy.lt_size (events_ne_none hevent)
  have hinsert : m.registered = Insert.insert (fd, event) m'.registered := by
    ext ⟨fd', event'⟩
    rw [Set.mem_insert_iff, mem_registered, mem_registered, hsize, hcontext]
    by_cases hsame : fd' = fd
    · subst hsame
      have hbits := Events.has_diff_single (m.context fd').events event event'
      simp only [Function.update_self, FdContext.without, hbits]
      grind
    · simp only [Function.update_of_ne hsame]
      grind
  have hnotMem : (fd, event) ∉ m'.registered := by
    intro hmem
    have hbit := (mem_registered.mp hmem).2
    rw [hcontext, Function.update_self, FdContext.without, Events.has_diff_single] at hbit
    simp at hbit
  refine ⟨h.tidy.update hfd hsize hcontext (htasks_without h.tidy fd _), ?_⟩
  rw [hcount, h.count, hinsert, Set.ncard_insert_of_notMem hnotMem]
  exact subSize_of_le (Nat.le_add_left 1 _)

/-- The bit of one context is set, with a task, and counted. -/
theorem Counted.insert (h : m.Counted) (hfd : fd.val < m.size)
    (hnew : (m.context fd).events.has event = false) {context : FdContext} (task : Task)
    (hevents : context.events = (Events.single event).union (m.context fd).events)
    (htasks : ∀ event', context.getEventContext event'
      = if event' = event then some task else (m.context fd).getEventContext event')
    (hsize : m'.size = m.size) (hcontext : m'.context = Function.update m.context fd context)
    (hcount : m'.pendingEventCount = addSize m.pendingEventCount 1) : m'.Counted := by
  have hbits : ∀ event', context.events.has event'
      = ((m.context fd).events.has event' || decide (event' = event)) := by
    intro event'
    rw [hevents, Events.has_union_single]
  have hinsert : m'.registered = Insert.insert (fd, event) m.registered := by
    ext ⟨fd', event'⟩
    rw [Set.mem_insert_iff, mem_registered, mem_registered, hsize, hcontext]
    by_cases hsame : fd' = fd
    · subst hsame
      simp only [Function.update_self, hbits]
      grind
    · simp only [Function.update_of_ne hsame]
      grind
  have hnotMem : (fd, event) ∉ m.registered := by
    intro hmem
    rw [(mem_registered.mp hmem).2] at hnew
    cases hnew
  constructor
  · refine h.tidy.update hfd hsize hcontext ?_
    intro event'
    rw [htasks, hbits, ← h.tidy.waiting fd event']
    by_cases hsame : event' = event
    · simp [hsame]
    · simp [hsame]
  · rw [hcount, h.count, hinsert, Set.ncard_insert_of_notMem hnotMem]
    exact addSize_of_lt (ncard_registered_lt m)

section Uses

theorem pendingEventCount_triggerPending (hrun : m.triggerPending fd event = .ok m') :
    m'.pendingEventCount = subSize m.pendingEventCount 1 := by
  rw [triggerPending, triggerEvent] at hrun
  dsimp only at hrun
  split at hrun
  · split at hrun
    · cases hrun
    · cases hrun
      rfl
  · cases hrun

theorem Counted.triggerPending (h : m.Counted) (hrun : m.triggerPending fd event = .ok m') :
    m'.Counted := by
  cases hevent : (m.context fd).events.has event with
  | false =>
      rw [triggerPending_unregistered hevent] at hrun
      cases hrun
  | true =>
      have hcount := pendingEventCount_triggerPending hrun
      obtain ⟨m₁, hrun₁, htriggered⟩ := triggerPending_registered h.tidy.waiting hevent
      rw [hrun] at hrun₁
      cases hrun₁
      exact h.remove hevent htriggered.size htriggered.context hcount

theorem Counted.triggerIf (h : m.Counted) {c : Bool} (hrun : m.triggerIf c fd event = .ok m') :
    m'.Counted := by
  rw [Manager.triggerIf] at hrun
  split at hrun
  · exact h.triggerPending hrun
  · cases hrun
    exact h

theorem Counted.grown (h : m.Counted) (hretains : m.size ≤ (m.grown fd).size) :
    (m.grown fd).Counted := by
  have hcontext : (m.grown fd).context = m.context := by
    rcases grown_cases m fd with ⟨hsame, -⟩ | hresize
    · rw [hsame]
    · funext i
      rw [hresize, context_contextResize]
      split
      · next hi => exact (h.tidy.outside i hi.1).symm
      · rfl
  have hcount : (m.grown fd).pendingEventCount = m.pendingEventCount := by
    rcases grown_cases m fd with ⟨hsame, -⟩ | hresize
    · rw [hsame]
    · rw [hresize]
      rfl
  have hregistered : (m.grown fd).registered = m.registered := by
    ext ⟨fd', event'⟩
    rw [mem_registered, mem_registered, hcontext]
    refine and_congr_left fun hbit => ?_
    have hin := h.tidy.lt_size (events_ne_none hbit)
    exact iff_of_true (Nat.lt_of_lt_of_le hin hretains) hin
  constructor
  · refine ⟨?_, ?_⟩
    · intro i hi
      rw [hcontext]
      exact h.tidy.outside i (hretains.trans hi)
    · intro i event'
      rw [hcontext]
      exact h.tidy.waiting i event'
  · rw [hcount, hregistered, h.count]

theorem Counted.registerEvent (h : m.Counted) {task : Task} {ctl : EpollCtl} {b : Bool}
    (hgrants : m.Grants layout ctl fd event)
    (hrun : m.registerEvent layout ctl fd event task = .ok (b, m')) : m'.Counted := by
  obtain ⟨hsize, hnew, ⟨rfl, -⟩ | ⟨-, interest, rfl⟩⟩ := registerEvent_eq_ok hrun
  · exact absurd hrun hgrants.ne_false
  · refine h.insert hsize hnew task (events_setEventContext _ _ _) ?_ rfl rfl rfl
    intro event'
    cases event <;> cases event' <;> rfl

theorem Counted.delEvent (h : m.Counted) {ctl : EpollCtl} {b : Bool}
    (hrun : m.call layout (.delEvent fd event ctl) = .ok (b, m')) : m'.Counted := by
  obtain ⟨-, rfl⟩ | ⟨-, hevent, hsize, hcontext, hcount⟩ := call_delEvent_cases hrun
  · exact h
  · exact h.remove hevent hsize hcontext hcount

theorem Counted.cancelEvent (h : m.Counted) {ctl : EpollCtl} {b : Bool}
    (hrun : m.call layout (.cancelEvent fd event ctl) = .ok (b, m')) : m'.Counted := by
  obtain ⟨-, rfl⟩ | ⟨-, interest, htrigger⟩ := call_cancelEvent_cases hrun
  · exact h
  · exact (h.interest interest).triggerPending htrigger

theorem Counted.cancelAllEvent (h : m.Counted) {ctl : EpollCtl} {b : Bool}
    (hrun : m.call layout (.cancelAllEvent fd ctl) = .ok (b, m')) : m'.Counted := by
  obtain ⟨-, rfl⟩ | ⟨-, interest, _, _, mid, hread, hwrite⟩ := call_cancelAllEvent_cases hrun
  · exact h
  · exact ((h.interest interest).triggerIf hread).triggerIf hwrite

theorem Counted.dispatchEntry (h : m.Counted) {first : BitVec 64} {e : Entry × EpollCtl}
    (hrun : Manager.dispatchEntry layout first m e = .ok m') : m'.Counted := by
  rw [Manager.dispatchEntry] at hrun
  dsimp only at hrun
  split at hrun
  · cases hrun
    exact h
  · split at hrun
    · cases hrun
    · split at hrun
      · cases hrun
        exact h
      · split at hrun
        · cases hrun
          exact h
        · obtain ⟨m₁, hread, hwrite⟩ := Outcome.bind_eq_ok.mp hrun
          exact ((h.interest _).triggerIf hread).triggerIf hwrite

theorem Counted.dispatchRounds (h : m.Counted) (first : BitVec 64) {batch : List (Entry × EpollCtl)}
    (hrun : batch.foldlM (Manager.dispatchEntry layout first) m = .ok m') :
    m'.Counted := by
  induction batch generalizing m with
  | nil =>
      cases hrun
      exact h
  | cons e batch ih =>
      rw [List.foldlM_cons] at hrun
      obtain ⟨m₁, hround, hrest⟩ := Outcome.bind_eq_ok.mp hrun
      exact ih (h.dispatchEntry hround) hrest

/-- The step lemma: a careful use keeps the books. -/
theorem Counted.use (h : m.Counted) {u : Use} (hcareful : m.Careful layout u)
    (hrun : m.use layout u = .ok m') : m'.Counted := by
  obtain ⟨hgranted, hretains⟩ := hcareful
  cases u with
  | call c =>
      obtain ⟨⟨b, m₁⟩, hcall, hm₁⟩ := Outcome.map_eq_ok.mp hrun
      obtain rfl : m₁ = m' := hm₁
      cases c with
      | addEvent fd event task ctl =>
          rw [call_addEvent] at hcall
          exact (h.grown hretains).registerEvent (hgranted _ rfl) hcall
      | delEvent fd event ctl => exact h.delEvent hcall
      | cancelEvent fd event ctl => exact h.cancelEvent hcall
      | cancelAllEvent fd ctl => exact h.cancelAllEvent hcall
  | dispatch batch =>
      cases batch with
      | nil =>
          cases hrun
          exact h
      | cons e batch => exact h.dispatchRounds e.1.event.data hrun

end Uses

end Books

section Kernel

theorem intOfSize_size_le_iff (hsize : m.size < 2 ^ 31) (fd : Fd) :
    intOfSize m.size ≤ (fd.val : Int) ↔ m.size ≤ fd.val := by
  rw [intOfSize_size hsize]
  exact Int.ofNat_le

end Kernel

variable (layout)

theorem counted_of_reachable (hm : Reachable (Guarded (Careful layout) (Step layout)) (· = init) m) :
    m.Counted := by
  refine hm.invariant ?_ ?_
  · rintro _ rfl
    exact counted_init
  · rintro m u m' h ⟨hcareful, hstep⟩
    exact h.use hcareful hstep

/-- A call that returns false leaves bits, contexts and count as they were, just if it is not an
`addEvent` whose `epoll_ctl` fails; and they agree in every state that is reached without one. -/
theorem failureAtomic_iff_granted :
    (∀ (m : Manager) (c : Call),
      (∀ m', m.call layout c = .ok (false, m') → m.Unchanged m') ↔ m.Granted layout c) ∧
      ∀ m : Manager, Reachable (Guarded (Careful layout) (Step layout)) (· = init) m → m.Booked :=
  ⟨unchanged_iff_granted, fun _ hm => (counted_of_reachable layout hm).booked⟩

theorem call_init_addEvent (ctl : EpollCtl) :
    init.call Layout.spaced (.addEvent 5 .read (.fiber 1) ctl)
      = init.registerEvent Layout.spaced ctl 5 .read (.fiber 1) := by
  rw [call_addEvent, grown_of_lt (by decide) (by decide)]

/-- A reader is added under a kernel that allows it. -/
theorem failureAtomic_iff_granted_added : ∃ m', Step Layout.spaced init
    (.call (.addEvent 5 .read (.fiber 1) epollCtl)) m' ∧ m'.Booked := by
  obtain ⟨m', hregister⟩ : ∃ m', init.registerEvent Layout.spaced epollCtl 5 .read (.fiber 1)
      = .ok (true, m') := ⟨_, rfl⟩
  have hrun : Step Layout.spaced init (.call (.addEvent 5 .read (.fiber 1) epollCtl)) m' := by
    change Prod.snd <$> init.call Layout.spaced _ = _
    rw [call_init_addEvent, hregister]
    rfl
  have hgrown : init.grown 5 = init := grown_of_lt (by decide) (by decide)
  have hcareful : init.Careful Layout.spaced (.call (.addEvent 5 .read (.fiber 1) epollCtl)) := by
    constructor
    · rintro _ ⟨⟩
      rw [Granted, hgrown]
      intro _ _
      rfl
    · rw [Retains, hgrown]
  exact ⟨m', hrun, (failureAtomic_iff_granted Layout.spaced).2 m'
    (.next (.start rfl) ⟨hcareful, hrun⟩)⟩

/-- The kernel refuses a first reader: the bit is set all the same, with no task and not counted. -/
theorem not_failureAtomic_refused : ∃ m', init.call Layout.spaced
      (.addEvent 5 .read (.fiber 1) fun _ _ _ _ => none) = .ok (false, m') ∧
    ¬ init.Unchanged m' ∧ ¬ m'.Booked := by
  rw [call_init_addEvent]
  refine ⟨_, rfl, ?_, ?_⟩
  · intro h
    have hbit := congrArg FdContext.events (h.context 5 (by decide))
    cases hbit
  · intro h
    have hbit := (h.empty 5 (by decide) .read).mp rfl
    cases hbit

end Manager

end AsyncRPC.IOManager
