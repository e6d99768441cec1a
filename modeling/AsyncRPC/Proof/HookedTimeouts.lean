import AsyncRPC.Proof.HookedResults

/-!
# What a timeout does

With one thread a timeout that has fired wakes its fiber. But the kernel stays interested in the
descriptor, and so the next event for it cannot be added until the descriptor is closed.
-/

namespace AsyncRPC.HookedIO

open IOManager (Fd Event EpollCtl Layout Task Events)
open IOManager.Manager (Stable triggerPending_eq_ok)

variable {layout : Layout} {m m' : IOManager.Manager} {fd : Fd} {event : Event} {f : Nat}

section Bits

/-- A task waits only for an event whose bit is set. -/
def Bits (m : IOManager.Manager) : Prop :=
  ∀ fd event, (m.context fd).getEventContext event ≠ none → (m.context fd).events.has event = true

theorem stable_bits : Stable Bits where
  interest := fun _ _ h => h
  trigger := by
    intro m fd event m' h hrun
    obtain ⟨task, -, -, -, htasks, hevents, -, -⟩ := triggerPending_eq_ok hrun
    intro fd' event' hsome
    rw [htasks] at hsome
    split at hsome
    · exact absurd rfl hsome
    · next hother =>
      rw [hevents]
      by_cases hfd : fd' = fd
      · subst hfd
        rw [if_pos rfl, Events.has_diff_single, h fd' event' hsome]
        simpa using fun heq => hother ⟨rfl, heq⟩
      · rw [if_neg hfd]
        exact h fd' event' hsome

theorem stable_queued (f : Nat) : Stable fun m => 1 ≤ queued m f where
  interest := fun _ _ h => h
  trigger := by
    intro m fd event m' h hrun
    obtain ⟨task, -, -, -, -, -, -, hsubmitted⟩ := triggerPending_eq_ok hrun
    rw [queued_append hsubmitted]
    omega

theorem Bits.registerEvent (h : Bits m) {ctl : EpollCtl} {task : Task} {b : Bool}
    (hrun : m.registerEvent layout ctl fd event task = .ok (b, m')) : Bits m' := by
  have hset : ∀ (events : Events) (tasks : IOManager.FdContext → IOManager.FdContext)
      (fd' : Fd) (event' : Event), events = (Events.single event).union (m.context fd).events →
      (∀ event'', event'' ≠ event → (tasks { m.context fd with events := events }).getEventContext event''
        = (m.context fd).getEventContext event'') →
      (tasks { m.context fd with events := events }).events = events →
      ((m.setContext fd (tasks { m.context fd with events := events })).context
        fd').getEventContext event' ≠ none →
      ((m.setContext fd (tasks { m.context fd with events := events })).context
        fd').events.has event' = true := by
    intro events tasks fd' event' hevents hothers hkept hsome
    rw [IOManager.Manager.context_setContext] at hsome ⊢
    by_cases hfd : fd' = fd
    · subst hfd
      rw [Function.update_self] at hsome ⊢
      rw [hkept, hevents, Events.has_union_single]
      by_cases heq : event' = event
      · simp [heq]
      · rw [hothers event' heq] at hsome
        rw [h fd' event' hsome]
        rfl
    · rw [Function.update_of_ne hfd] at hsome ⊢
      exact h fd' event' hsome
  rw [IOManager.Manager.registerEvent] at hrun
  dsimp only at hrun
  split at hrun
  · cases hrun
  · split at hrun
    · cases hrun
    · split at hrun
      · cases hrun
        intro fd' event' hsome
        exact hset _ id fd' event' rfl (fun event'' _ => getEventContext_events _ _ event'') rfl hsome
      · split at hrun
        · cases hrun
        · cases hrun
          intro fd' event' hsome
          refine hset _ (fun context => context.setEventContext (some task) event) fd' event' rfl ?_
            (IOManager.Manager.events_setEventContext _ _ _) hsome
          intro event'' hne
          rw [getEventContext_setEventContext, if_neg hne, getEventContext_events]

theorem Bits.addEvent (h : Bits m) {ctl : EpollCtl} {task : Task} {b : Bool}
    (hrun : m.addEvent layout ctl fd event task = .ok (b, m')) : Bits m' := by
  have hgrown : Bits (m.grown fd) := by
    rcases IOManager.Manager.grown_cases m fd with ⟨hsame, -⟩ | hresize
    · rw [hsame]
      exact h
    · rw [hresize]
      intro fd' event' hsome
      rw [IOManager.Manager.context_contextResize] at hsome ⊢
      split at hsome
      · exact absurd (getEventContext_fresh event') hsome
      · next hold =>
        rw [if_neg hold]
        exact h fd' event' hsome
  exact hgrown.registerEvent hrun

theorem Bits.delEvent (h : Bits m) {ctl : EpollCtl} {b : Bool}
    (hrun : m.delEvent layout ctl fd event = .ok (b, m')) : Bits m' := by
  obtain ⟨-, rfl⟩ | ⟨-, -, -, hcontext, -⟩ := IOManager.Manager.call_delEvent_cases hrun
  · exact h
  · intro fd' event' hsome
    rw [hcontext] at hsome ⊢
    by_cases hfd : fd' = fd
    · subst hfd
      rw [Function.update_self] at hsome ⊢
      have hne : event' ≠ event := by
        rintro rfl
        cases event' <;> exact hsome rfl
      have hold : (m.context fd').getEventContext event' ≠ none := by
        cases event <;> cases event' <;> first | exact absurd rfl hne | exact hsome
      change ((m.context fd').events.diff (.single event)).has event' = true
      rw [Events.has_diff_single, h fd' event' hold]
      simpa using hne
    · rw [Function.update_of_ne hfd] at hsome ⊢
      exact h fd' event' hsome

theorem Bits.used (h : Bits m) {c : IOManager.Manager.Call} {b : Bool}
    (hrun : m.call layout c = .ok (b, m')) : Bits m' := by
  cases c with
  | addEvent fd event task ctl => exact h.addEvent hrun
  | delEvent fd event ctl => exact h.delEvent hrun
  | cancelEvent fd event ctl => exact stable_bits.cancelEvent h hrun
  | cancelAllEvent fd ctl => exact stable_bits.cancelAllEvent h hrun

theorem Bits.step {s t : State} (h : Bits s.table) {l : Label} (hdoes : Does layout s l t) :
    Bits t.table := by
  cases hdoes with
  | added hpc hrun => exact h.addEvent hrun
  | refused hpc hrun => exact h.addEvent hrun
  | notAdded hpc hcancel =>
      obtain ⟨timers, rfl, -⟩ := Inv.cancelTimer_eq_some hcancel
      exact h
  | disarmed hpc hcancel =>
      obtain ⟨timers, rfl, -⟩ := Inv.cancelTimer_eq_some hcancel
      exact h
  | dispatched hrun => exact stable_bits.dispatch h hrun
  | cancelled hin hrun => exact stable_bits.cancelEvent h hrun
  | deleted hrun => exact h.delEvent hrun
  | table hrun hkept => exact h.used hrun
  | _ => exact h

end Bits

section Alarm

/-- The call in which a fiber waits, or has waited and not looked at the condition yet. -/
def Pc.awaits : Pc → Option Nat
  | .waiting c _ | .resumed c _ | .checking c => some c
  | _ => none

/-- The fiber is on its way to see the condition. -/
structure Awake (s : State) (f c : Nat) : Prop where
  awaits : (s.pc f).awaits = some c
  woken : (s.pc f).isWaiting = true → c ∈ s.deleted ∨ c ∈ s.cancelling ∨ 1 ≤ queued s.table f

theorem Awake.mono {s t : State} {c : Nat} (h : Awake s f c) (hpc : t.pc f = s.pc f)
    (hdeleted : c ∈ s.deleted → c ∈ t.deleted) (hcancelling : c ∈ s.cancelling → c ∈ t.cancelling)
    (hqueued : 1 ≤ queued s.table f → 1 ≤ queued t.table f) : Awake t f c where
  awaits := hpc ▸ h.awaits
  woken := by
    rw [hpc]
    exact fun hwaiting => (h.woken hwaiting).imp hdeleted (Or.imp hcancelling hqueued)

/-- Whose call has timed out is on its way to see it. -/
structure Alarm (s : State) : Prop where
  bits : Bits s.table
  made : ∀ c errno, s.condition c = some errno → errno ≠ 0 → c < s.made
  awake : ∀ f c errno, (s.pc f).call = some c → s.condition c = some errno → errno ≠ 0 → Awake s f c

namespace Alarm

variable {s t : State}

theorem init (h : New s) : Alarm s where
  bits := by
    intro fd event hsome
    rw [h.table] at hsome
    exact absurd (getEventContext_fresh event) hsome
  made := by
    intro c errno hc
    rw [h.condition] at hc
    cases hc
  awake := by
    intro f c errno hcall
    rw [h.pc] at hcall
    cases hcall

/-- No condition is set, and each fiber stays in its call and on its way. -/
theorem keep (h : Alarm s) (hbits : Bits t.table) (hmade : s.made ≤ t.made)
    (hcondition : ∀ c errno, t.condition c = some errno → errno ≠ 0 → s.condition c = some errno)
    (hawake : ∀ g c errno, s.condition c = some errno → errno ≠ 0 → (t.pc g).call = some c →
      (s.pc g).call = some c ∧ (Awake s g c → Awake t g c)) : Alarm t where
  bits := hbits
  made := fun c errno hc hset => (h.made c errno (hcondition c errno hc hset) hset).trans_le hmade
  awake := by
    intro g c errno hg hc hset
    have hold := hcondition c errno hc hset
    obtain ⟨hcall, hstays⟩ := hawake g c errno hold hset hg
    exact hstays (h.awake g c errno hcall hold hset)

/-- The table has changed, and lost no task that is submitted. -/
theorem retable (h : Alarm s) (hbits : Bits t.table) (hpc : t.pc = s.pc) (hmade : s.made ≤ t.made)
    (hcondition : t.condition = s.condition) (hdeleted : ∀ c ∈ s.deleted, c ∈ t.deleted)
    (hcancelling : t.cancelling = s.cancelling)
    (hqueued : ∀ f, 1 ≤ queued s.table f → 1 ≤ queued t.table f) : Alarm t := by
  refine h.keep hbits hmade (fun c errno hc _ => hcondition ▸ hc) fun g c errno _ _ hg => ?_
  refine ⟨hpc ▸ hg, fun hawake => hawake.mono (congrFun hpc g) (hdeleted c) ?_ (hqueued g)⟩
  rw [hcancelling]
  exact id

/-- What else a step changes is of no matter here. -/
theorem same (h : Alarm s) (htable : t.table = s.table) (hpc : t.pc = s.pc) (hmade : s.made ≤ t.made)
    (hcondition : t.condition = s.condition) (hdeleted : t.deleted = s.deleted)
    (hcancelling : t.cancelling = s.cancelling) : Alarm t := by
  refine h.retable ?_ hpc hmade hcondition (fun c hc => ?_) hcancelling fun f hone => ?_
  · rw [htable]
    exact h.bits
  · rwa [hdeleted]
  · rwa [htable]

/-- A fiber goes on, and either its call has not timed out or it still comes to the condition. -/
theorem move (h : Alarm s) {pc : Pc} (hbits : Bits t.table) (hpc : t.pc = Function.update s.pc f pc)
    (hown : ∀ c errno, s.condition c = some errno → errno ≠ 0 → pc.call = some c →
      (s.pc f).call = some c ∧
        ((s.pc f).awaits = some c → pc.awaits = some c ∧ pc.isWaiting = false))
    (hmade : s.made ≤ t.made)
    (hcondition : ∀ c errno, t.condition c = some errno → errno ≠ 0 → s.condition c = some errno)
    (hdeleted : t.deleted = s.deleted) (hcancelling : t.cancelling = s.cancelling)
    (hqueued : ∀ g, g ≠ f → 1 ≤ queued s.table g → 1 ≤ queued t.table g) : Alarm t := by
  refine h.keep hbits hmade hcondition fun g c errno hc hset hg => ?_
  by_cases hgf : g = f
  · subst hgf
    rw [hpc, Function.update_self] at hg
    obtain ⟨hcall, hstays⟩ := hown c errno hc hset hg
    refine ⟨hcall, fun hawake => ?_⟩
    obtain ⟨hawaits, hrunning⟩ := hstays hawake.awaits
    refine ⟨by rw [hpc, Function.update_self]; exact hawaits, fun hwaiting => ?_⟩
    rw [hpc, Function.update_self, hrunning] at hwaiting
    cases hwaiting
  · have hsame : t.pc g = s.pc g := by rw [hpc, Function.update_of_ne hgf]
    refine ⟨hsame ▸ hg, fun hawake => hawake.mono hsame ?_ ?_ (hqueued g hgf)⟩
    · rw [hdeleted]
      exact id
    · rw [hcancelling]
      exact id

/-- A fiber leaves its call. -/
theorem finish (h : Alarm s) {c : Nat} {outcome : Outcome} : Alarm (s.finish f c outcome) := by
  refine h.move h.bits rfl (fun c' _ _ _ hcall => ?_) le_rfl (fun _ _ hc _ => hc) rfl rfl
    fun _ _ hone => hone
  cases hcall

/-- A fiber goes on in its call, which it was not waiting in. -/
theorem onward {before : Pc} (pc : Pc) (hpc : s.pc f = before) (hnone : before.awaits = none)
    (hsame : pc.call = before.call) {c : Nat} (hcall : pc.call = some c) :
    (s.pc f).call = some c ∧
      ((s.pc f).awaits = some c → pc.awaits = some c ∧ pc.isWaiting = false) := by
  rw [hpc]
  refine ⟨hsame.symm.trans hcall, fun hawaits => ?_⟩
  rw [hnone] at hawaits
  cases hawaits

theorem queued_congr (hsubmitted : m'.submitted = m.submitted) (f : Nat) (h : 1 ≤ queued m f) :
    1 ≤ queued m' f := by
  rw [queued, hsubmitted]
  exact h

/-- `cancelEvent` submits the fiber of the call, if it waits for the event. -/
theorem queued_cancelEvent (h : Alarm s) (hinv : Inv s) {c : Nat} {ctl : EpollCtl} {b : Bool}
    {table : IOManager.Manager}
    (hgranted : ∀ op event, op ≠ .add → (ctl s.table.interest op (s.call c).fd event).isSome = true)
    (hrun : s.table.cancelEvent layout ctl (s.call c).fd (s.call c).event = .ok (b, table))
    (hin : Registered s.table f (s.call c).fd (s.call c).event) : 1 ≤ queued table f := by
  have hsome : (s.table.context (s.call c).fd).getEventContext (s.call c).event ≠ none := by
    rw [hin]
    exact fun heq => by cases heq
  have hsize : (s.call c).fd.val < s.table.size := by
    by_contra hout
    exact hsome (hinv.small.empty _ _ (Nat.not_lt.mp hout))
  have hbit := h.bits _ _ hsome
  rw [IOManager.Manager.cancelEvent, if_neg] at hrun
  · dsimp only at hrun
    rw [hbit, Bool.not_true, if_neg Bool.false_ne_true] at hrun
    split at hrun
    · next hctl =>
      refine (Option.isSome_iff_ne_none.mp (hgranted _ _ ?_) hctl).elim
      split
      · exact fun heq => by cases heq
      · exact fun heq => by cases heq
    · obtain ⟨m₁, htrigger, hlast⟩ := Outcome.bind_eq_ok.mp hrun
      cases hlast
      obtain ⟨task, htask, -, -, -, -, -, hsubmitted⟩ := triggerPending_eq_ok htrigger
      obtain rfl : Task.fiber f = task := Option.some.inj (hin.symm.trans htask)
      rw [queued_append hsubmitted, if_pos rfl]
      omega
  · rw [IOManager.Manager.intOfSize_size_le_iff hinv.small.size_lt]
    omega

theorem cancelled (h : Alarm s) (hinv : Inv s) {c : Nat} {ctl : EpollCtl} {b : Bool}
    (hgranted : ∀ op event, op ≠ .add → (ctl s.table.interest op (s.call c).fd event).isSome = true)
    (hrun : s.table.cancelEvent layout ctl (s.call c).fd (s.call c).event = .ok (b, t.table))
    (hpc : t.pc = s.pc) (hmade : s.made ≤ t.made) (hcondition : t.condition = s.condition)
    (hdeleted : t.deleted = s.deleted) (hcancelling : t.cancelling = s.cancelling.erase c) :
    Alarm t := by
  refine h.keep (stable_bits.cancelEvent h.bits hrun) hmade (fun c errno hc _ => hcondition ▸ hc)
    fun g c' errno _ _ hg => ⟨hpc ▸ hg, fun hawake => ?_⟩
  have hqueued : 1 ≤ queued s.table g → 1 ≤ queued t.table g :=
    fun hone => (stable_queued g).cancelEvent hone hrun
  refine ⟨congrFun hpc _ ▸ hawake.awaits, fun hwaiting => ?_⟩
  rw [hpc] at hwaiting
  rw [hdeleted, hcancelling]
  by_cases hne : c' = c
  · subst hne
    obtain ⟨c, timer, hwaits⟩ := Pc.eq_waiting hwaiting
    obtain rfl : c = c' := by
      have hawaits := hawake.awaits
      rw [hwaits] at hawaits
      exact Option.some.inj hawaits
    by_cases hin : c ∈ s.deleted
    · exact Or.inl hin
    · refine Or.inr (Or.inr ?_)
      have hplace := State.place_waiting hwaits
      rw [if_neg hin] at hplace
      rcases hinv.seated.waiting _ _ _ hplace with hregistered | hone
      · exact h.queued_cancelEvent hinv hgranted hrun hregistered
      · exact hqueued (by omega)
  · refine (hawake.woken hwaiting).imp id (Or.imp (fun hin => ?_) hqueued)
    exact (List.mem_erase_of_ne hne).mpr hin

/-- **The step lemma.** -/
theorem step (h : Alarm s) (hinv : Inv s) {l : Label} (hpossible : s.Possible l) (hcalm : s.Calm l)
    (hdoes : Does layout s l t) : Alarm t := by
  have hbits := h.bits.step hdoes
  cases hdoes with
  | closed hpc hgate =>
      exact h.same rfl rfl (Nat.le_succ _) rfl rfl rfl
  | direct hpc hgate =>
      refine h.move h.bits rfl (fun c errno hc hset hown => ?_) (Nat.le_succ _) (fun _ _ hc _ => hc) rfl rfl
        fun _ _ hone => hone
      cases hown
      exact absurd (h.made _ errno hc hset) (lt_irrefl _)
  | hooked hpc hgate =>
      refine h.move h.bits rfl (fun c errno hc hset hown => ?_) (Nat.le_succ _)
        (fun c errno hc hset => ?_) rfl rfl fun _ _ hone => hone
      · cases hown
        exact absurd (h.made _ errno hc hset) (lt_irrefl _)
      · by_cases hne : c = s.made
        · subst hne
          exact absurd (Option.some.inj ((Function.update_self s.made _ _).symm.trans hc)).symm hset
        · exact (Function.update_of_ne hne _ _).symm.trans hc
  | @passed f a c hpc =>
      have hrecord : Alarm (s.record c a) := h.same rfl rfl le_rfl rfl rfl rfl
      exact hrecord.finish
  | interrupted hpc ha => exact h.same rfl rfl le_rfl rfl rfl rfl
  | pending hpc hno ha =>
      exact h.move h.bits rfl (fun _ _ _ _ hown => onward _ hpc rfl rfl hown) le_rfl (fun _ _ hc _ => hc)
        rfl rfl fun _ _ hone => hone
  | @answered f a c hpc ha =>
      have hrecord : Alarm (s.record c a) := h.same rfl rfl le_rfl rfl rfl rfl
      exact hrecord.finish
  | unarmed hpc hforever =>
      exact h.move h.bits rfl (fun _ _ _ _ hown => onward _ hpc rfl rfl hown) le_rfl (fun _ _ hc _ => hc)
        rfl rfl fun _ _ hone => hone
  | armed hpc hlong hrun =>
      exact h.move h.bits rfl (fun _ _ _ _ hown => onward _ hpc rfl rfl hown) le_rfl (fun _ _ hc _ => hc)
        rfl rfl fun _ _ hone => hone
  | @added f ctl c timer table hpc hrun =>
      obtain ⟨-, -, hfd⟩ := hinv.own f c (by rw [hpc]; rfl)
      obtain ⟨-, hsubmitted, -⟩ := hinv.small.addEvent hfd hrun
      exact h.move hbits rfl (fun _ _ _ _ hown => onward (.waiting c timer) hpc rfl rfl hown) le_rfl
        (fun _ _ hc _ => hc) rfl rfl fun g _ => queued_congr hsubmitted g
  | @refused f ctl c timer table hpc hrun =>
      obtain ⟨-, -, hfd⟩ := hinv.own f c (by rw [hpc]; rfl)
      obtain ⟨-, hsubmitted, -⟩ := hinv.small.addEvent hfd hrun
      exact h.move hbits rfl (fun _ _ _ _ hown => onward _ hpc rfl rfl hown) le_rfl (fun _ _ hc _ => hc)
        rfl rfl fun g _ => queued_congr hsubmitted g
  | @notAdded f c timer s' hpc hcancel =>
      obtain ⟨timers, rfl, -⟩ := Inv.cancelTimer_eq_some hcancel
      have hcancelled : Alarm { s with timers := timers } := h.same rfl rfl le_rfl rfl rfl rfl
      exact hcancelled.finish
  | @resumed f c timer hpc hany =>
      refine h.move h.bits rfl (fun c' _ _ _ hown => ?_) le_rfl (fun _ _ hc _ => hc) rfl rfl
        fun g hg hone => ?_
      · rw [hpc]
        exact ⟨hown, fun hawaits => ⟨hawaits, rfl⟩⟩
      · have htake := @queued_take s.table { s.table with submitted := s.table.submitted.eraseP (isOf f) } f
          hany rfl g
        rw [if_neg hg] at htake
        exact Nat.le_trans hone htake.le
  | @disarmed f c timer s' hpc hcancel =>
      obtain ⟨timers, rfl, -⟩ := Inv.cancelTimer_eq_some hcancel
      refine h.move h.bits rfl (fun c' _ _ _ hown => ?_) le_rfl (fun _ _ hc _ => hc) rfl rfl
        fun _ _ hone => hone
      rw [hpc]
      exact ⟨hown, fun hawaits => ⟨hawaits, rfl⟩⟩
  | retried hpc hcondition hkind =>
      refine h.move h.bits rfl (fun c' errno hc' hset hown => ?_) le_rfl (fun _ _ hc _ => hc) rfl rfl
        fun _ _ hone => hone
      cases hown
      exact absurd (Option.some.inj (hc'.symm.trans hcondition)) hset
  | connected hpc hcondition hkind =>
      refine h.move h.bits rfl (fun c' errno hc' hset hown => ?_) le_rfl (fun _ _ hc _ => hc) rfl rfl
        fun _ _ hone => hone
      cases hown
      exact absurd (Option.some.inj (hc'.symm.trans hcondition)) hset
  | timedOut hpc hcondition hset => exact h.finish
  | soError hpc => exact h.finish
  | expired hrun => exact h.same rfl rfl le_rfl rfl rfl rfl
  | dispatched hrun =>
      exact h.retable hbits rfl le_rfl rfl (fun _ hc => hc) rfl
        fun f hone => (stable_queued f).dispatch hone hrun
  | dead hin => exact h.same rfl rfl le_rfl rfl rfl rfl
  | fired hin hcaptured hlocks hcondition => exact h.same rfl rfl le_rfl rfl rfl rfl
  | @written c hin =>
      obtain ⟨timer, hpc⟩ := hcalm
      have hother : ∀ c' errno, c' ≠ c → (s.write c).condition c' = some errno →
          s.condition c' = some errno :=
        fun c' errno hne hc' => (Function.update_of_ne hne _ _).symm.trans hc'
      refine ⟨h.bits, fun c' errno hc' hset => ?_, fun g c' errno hg hc' hset => ?_⟩
      · by_cases hne : c' = c
        · subst hne
          exact (hinv.own _ c' (by rw [hpc]; rfl)).1
        · exact h.made c' errno (hother c' errno hne hc') hset
      · by_cases hne : c' = c
        · subst hne
          obtain rfl : (s.call c').fiber = g := (hinv.own g c' hg).2.1
          exact ⟨(congrArg Pc.awaits hpc).trans rfl,
            fun _ => Or.inr (Or.inl (List.mem_append_right _ (List.mem_singleton_self c')))⟩
        · exact (h.awake g c' errno hg (hother c' errno hne hc') hset).mono rfl id
            (List.mem_append_left _) id
  | cancelled hin hrun => exact h.cancelled hinv hcalm hrun rfl le_rfl rfl rfl rfl
  | deleted hrun =>
      exact h.retable hbits rfl le_rfl rfl (fun _ hc => List.mem_append_left _ hc) rfl
        fun f => queued_congr (submitted_delEvent hrun) f
  | @table c b table hrun hkept =>
      cases c with
      | addEvent fd event task ctl =>
          obtain ⟨hfd, -⟩ := hpossible fd event task ctl rfl
          obtain ⟨-, hsubmitted, -⟩ := hinv.small.addEvent hfd hrun
          exact h.retable hbits rfl le_rfl rfl (fun _ hc => hc) rfl
            fun f => queued_congr hsubmitted f
      | delEvent fd event ctl =>
          exact h.retable hbits rfl le_rfl rfl (fun _ hc => hc) rfl
            fun f => queued_congr (submitted_delEvent hrun) f
      | cancelEvent fd event ctl =>
          exact h.retable hbits rfl le_rfl rfl (fun _ hc => hc) rfl
            fun f hone => (stable_queued f).cancelEvent hone hrun
      | cancelAllEvent fd ctl =>
          exact h.retable hbits rfl le_rfl rfl (fun _ hc => hc) rfl
            fun f hone => (stable_queued f).cancelAllEvent hone hrun
  | timers hrun => exact h.same rfl rfl le_rfl rfl rfl rfl

end Alarm

/-- **No timeout is lost** in a calm run. -/
theorem alarmed_of_calm {s : State}
    (h : Transition.Reachable (Transition.Guarded (fun s l => s.Possible l ∧ s.Calm l)
      (State.Step layout)) New s) : s.Alarmed := by
  have hboth : Inv s ∧ Alarm s := by
    apply Transition.Reachable.invariant (fun _ hnew => ⟨Inv.init hnew, Alarm.init hnew⟩) _ h
    rintro s l t ⟨hinv, halarm⟩ ⟨⟨hpossible, hcalm⟩, hstep⟩
    have hdoes := does_of_step hstep
    exact ⟨hinv.step hpossible hdoes, halarm.step hinv hpossible hcalm hdoes⟩
  obtain ⟨hinv, halarm⟩ := hboth
  intro f c timer errno hpc hc hset
  have hawake := halarm.awake f c errno (by rw [hpc]; rfl) hc hset
  refine (hawake.woken (by rw [hpc]; rfl)).imp id (Or.imp id fun hone => ?_)
  have hplace := State.place_waiting hpc
  by_cases hin : c ∈ s.deleted
  · rw [if_pos hin] at hplace
    have hzero := hinv.seated.outside f hplace
    omega
  · rw [if_neg hin] at hplace
    rcases hinv.seated.waiting f _ _ hplace with hregistered | heq
    · have hzero := (hinv.seated.registered f _ _ hregistered).2
      omega
    · exact heq

/-- A reader whose condition is set, and `cancelEvent` is to come. -/
theorem alarmed_of_calm_written : ∃ s : State, s.condition 0 = some etimedout ∧ s.Alarmed := by
  let fires : List Label := [.expire 10 200, .fire 0, .write 0]
  have hset : ((reads ++ fires).foldlM next fresh).map (State.condition · 0) = some (some etimedout) := by
    decide +kernel
  obtain ⟨s, hrun, hfired⟩ := exists_of_script hset
  exact ⟨s, hfired,
    alarmed_of_calm (reachable_of_script (fun _ _ _ h => ⟨h.1, h.2.2⟩) (.start new_fresh) hrun)⟩

end Alarm

section Interest

/-- The kernel is interested in every descriptor that waits for something. -/
def Known (m : IOManager.Manager) : Prop :=
  ∀ fd, (m.context fd).events ≠ .none → (m.interest fd).isSome = true

/-- Whatever has been done to one descriptor, the others are as they were, or their contexts new. -/
structure Touched (fd' : Fd) (m m' : IOManager.Manager) : Prop where
  others : ∀ fd, fd ≠ fd' → m'.interest fd = m.interest fd ∧
    ((m'.context fd).events = (m.context fd).events ∨ (m'.context fd).events = .none)
  known : ((m.context fd').events ≠ .none → (m.interest fd').isSome = true) →
    (m'.context fd').events ≠ .none → (m'.interest fd').isSome = true

theorem Touched.refl (fd : Fd) (m : IOManager.Manager) : Touched fd m m :=
  ⟨fun _ _ => ⟨rfl, Or.inl rfl⟩, id⟩

theorem Touched.trans {m₁ m₂ : IOManager.Manager} (h₁ : Touched fd m m₁) (h₂ : Touched fd m₁ m₂) :
    Touched fd m m₂ := by
  refine ⟨fun fd' hfd => ?_, fun hknown => h₂.known (h₁.known hknown)⟩
  obtain ⟨hinterest₁, hevents₁⟩ := h₁.others fd' hfd
  obtain ⟨hinterest₂, hevents₂⟩ := h₂.others fd' hfd
  refine ⟨hinterest₂.trans hinterest₁, ?_⟩
  rcases hevents₂ with hsame | hnone
  · rw [hsame]
    exact hevents₁
  · exact Or.inr hnone

theorem Touched.keepsKnown (h : Touched fd m m') (hm : Known m) : Known m' := by
  intro fd' hevents
  by_cases hfd : fd' = fd
  · subst hfd
    exact h.known (hm fd') hevents
  · obtain ⟨hinterest, hsame | hnone⟩ := h.others fd' hfd
    · rw [hinterest]
      exact hm fd' (hsame ▸ hevents)
    · exact absurd hnone hevents

theorem Touched.keepsStale {fd' : Fd} (h : Touched fd' m m') (hfd : fd ≠ fd') (hm : Stale m fd) :
    Stale m' fd := by
  obtain ⟨hinterest, hevents⟩ := h.others fd hfd
  refine ⟨hinterest ▸ hm.interest, ?_⟩
  rcases hevents with hsame | hnone
  · exact hsame.trans hm.events
  · exact hnone

theorem has_of_none {events : Events} (h : events = .none) (event : Event) :
    events.has event = false := by
  subst h
  cases event <;> rfl

/-- What one trigger leaves of the bits and of the kernel's interest. -/
theorem triggerIf_events {cond : Bool} (hrun : m.triggerIf cond fd event = .ok m') :
    m'.interest = m.interest ∧ ∀ fd', (m'.context fd').events
      = if fd' = fd ∧ cond = true then (m.context fd).events.diff (.single event)
        else (m.context fd').events := by
  rw [IOManager.Manager.triggerIf] at hrun
  split at hrun
  · next hcond =>
    obtain ⟨task, -, -, hinterest, -, hevents, -, -⟩ := triggerPending_eq_ok hrun
    refine ⟨hinterest, fun fd' => ?_⟩
    rw [hevents]
    simp [hcond]
  · next hcond =>
    cases hrun
    refine ⟨rfl, fun fd' => ?_⟩
    rw [if_neg fun h => hcond h.2]

/-- Both triggers of a batch's entry. -/
theorem triggerReal_events {real : Events} (hrun : m.triggerReal fd real = .ok m') :
    m'.interest = m.interest ∧ ∀ fd', (m'.context fd').events
      = if fd' = fd then (m.context fd).events.diff real else (m.context fd').events := by
  obtain ⟨mid, hread, hwrite⟩ := Outcome.bind_eq_ok.mp hrun
  obtain ⟨hinterest, hevents⟩ := triggerIf_events hread
  obtain ⟨hinterest', hevents'⟩ := triggerIf_events hwrite
  refine ⟨hinterest'.trans hinterest, fun fd' => ?_⟩
  rw [hevents', hevents, hevents]
  by_cases hfd : fd' = fd
  · subst hfd
    cases hr : real.read <;> cases hw : real.write <;>
      simp [Events.diff, Events.single, Events.has, hr, hw]
  · simp [hfd]

theorem touched_cancelEvent {b : Bool}
    (hrun : m.cancelEvent layout IOManager.epollCtl fd event = .ok (b, m')) :
    Touched fd m m' ∧ ((m.context fd).events.has event = false → m' = m) := by
  rw [IOManager.Manager.cancelEvent] at hrun
  dsimp only at hrun
  split at hrun
  · cases hrun
    exact ⟨Touched.refl fd m, fun _ => rfl⟩
  · split at hrun
    · cases hrun
      exact ⟨Touched.refl fd m, fun _ => rfl⟩
    · next hbit =>
      split at hrun
      · cases hrun
        exact ⟨Touched.refl fd m, fun _ => rfl⟩
      · next interest hctl =>
        obtain ⟨m₁, htrigger, hlast⟩ := Outcome.bind_eq_ok.mp hrun
        cases hlast
        obtain ⟨task, -, -, hinterest, -, hevents, -, -⟩ := triggerPending_eq_ok htrigger
        refine ⟨⟨fun fd' hfd => ⟨?_, Or.inl ?_⟩, fun _ _ => ?_⟩, fun hno => ?_⟩
        · rw [hinterest]
          exact IOManager.epollCtl_of_ne hctl hfd
        · rw [hevents, if_neg hfd]
        · rw [hinterest]
          refine IOManager.epollCtl_isSome hctl ?_
          rw [if_pos (IOManager.Manager.events_ne_none (by simpa using hbit))]
          exact fun heq => by cases heq
        · rw [hno] at hbit
          exact absurd rfl hbit

theorem touched_cancelAllEvent {b : Bool}
    (hrun : m.cancelAllEvent layout IOManager.epollCtl fd = .ok (b, m')) :
    Touched fd m m' ∧ ((m.context fd).events = .none → m' = m) := by
  rw [IOManager.Manager.cancelAllEvent] at hrun
  dsimp only at hrun
  split at hrun
  · cases hrun
    exact ⟨Touched.refl fd m, fun _ => rfl⟩
  · split at hrun
    · cases hrun
      exact ⟨Touched.refl fd m, fun _ => rfl⟩
    · next hevents =>
      split at hrun
      · cases hrun
        exact ⟨Touched.refl fd m, fun _ => rfl⟩
      · next interest hctl =>
        obtain ⟨mid, hread, hrun⟩ := Outcome.bind_eq_ok.mp hrun
        obtain ⟨m₁, hwrite, hlast⟩ := Outcome.bind_eq_ok.mp hrun
        split at hlast
        · next hdone =>
          cases hlast
          obtain ⟨hinterest, hevents₁⟩ := triggerIf_events hread
          obtain ⟨hinterest', hevents₂⟩ := triggerIf_events hwrite
          refine ⟨⟨fun fd' hfd => ⟨?_, Or.inl ?_⟩, fun _ hsome => absurd hdone hsome⟩,
            fun hno => absurd hno hevents⟩
          · rw [hinterest', hinterest]
            exact IOManager.epollCtl_of_ne hctl hfd
          · rw [hevents₂, if_neg fun h => hfd h.1, hevents₁, if_neg fun h => hfd h.1]
        · cases hlast

theorem touched_delEvent {b : Bool}
    (hrun : m.delEvent layout IOManager.epollCtl fd event = .ok (b, m')) :
    Touched fd m m' ∧ ((m.context fd).events.has event = false → m' = m) := by
  rw [IOManager.Manager.delEvent] at hrun
  dsimp only at hrun
  split at hrun
  · cases hrun
    exact ⟨Touched.refl fd m, fun _ => rfl⟩
  · split at hrun
    · cases hrun
      exact ⟨Touched.refl fd m, fun _ => rfl⟩
    · next hbit =>
      split at hrun
      · cases hrun
        exact ⟨Touched.refl fd m, fun _ => rfl⟩
      · next interest hctl =>
        cases hrun
        refine ⟨⟨fun fd' hfd => ⟨IOManager.epollCtl_of_ne hctl hfd, Or.inl ?_⟩, fun _ _ => ?_⟩, fun hno => ?_⟩
        · exact congrArg IOManager.FdContext.events (Function.update_of_ne hfd _ _)
        · refine IOManager.epollCtl_isSome hctl ?_
          rw [if_pos (IOManager.Manager.events_ne_none (by simpa using hbit))]
          exact fun heq => by cases heq
        · rw [hno] at hbit
          exact absurd rfl hbit

theorem context_setContext_of_ne {fd' : Fd} (context : IOManager.FdContext) (hfd : fd' ≠ fd) :
    (m.setContext fd context).context fd' = m.context fd' := by
  rw [IOManager.Manager.context_setContext, Function.update_of_ne hfd]

theorem touched_registerEvent {task : Task} {b : Bool}
    (hrun : m.registerEvent layout IOManager.epollCtl fd event task = .ok (b, m')) :
    Touched fd m m' := by
  rw [IOManager.Manager.registerEvent] at hrun
  dsimp only at hrun
  split at hrun
  · cases hrun
  · split at hrun
    · cases hrun
    · split at hrun
      · next hctl =>
        cases hrun
        refine ⟨fun fd' hfd => ⟨rfl, Or.inl ?_⟩, fun hknown _ => ?_⟩
        · rw [context_setContext_of_ne _ hfd]
        · change (m.interest fd).isSome = true
          by_contra hnone
          have hidle : (m.context fd).events = .none := by
            by_contra hsome
            exact hnone (hknown hsome)
          rw [IOManager.Manager.addRequest] at hctl
          dsimp only at hctl
          rw [if_neg (not_not.mpr hidle), IOManager.epollCtl_add (by simpa using hnone)] at hctl
          cases hctl
      · next interest hctl =>
        split at hrun
        · cases hrun
        · cases hrun
          refine ⟨fun fd' hfd => ⟨IOManager.epollCtl_of_ne hctl hfd, Or.inl ?_⟩,
            fun _ _ => IOManager.epollCtl_isSome hctl ?_⟩
          · change ((m.setContext fd _).context fd').events = _
            rw [context_setContext_of_ne _ hfd]
          · rw [IOManager.Manager.addRequest]
            dsimp only
            split
            · exact fun heq => by cases heq
            · exact fun heq => by cases heq

theorem touched_grown (m : IOManager.Manager) (fd : Fd) : Touched fd m (m.grown fd) := by
  rcases IOManager.Manager.grown_cases m fd with ⟨hsame, -⟩ | hresize
  · rw [hsame]
    exact Touched.refl fd m
  · have hevents : ∀ fd', ((m.grown fd).context fd').events = (m.context fd').events ∨
        ((m.grown fd).context fd').events = .none := by
      intro fd'
      rw [hresize, IOManager.Manager.context_contextResize]
      split
      · exact Or.inr rfl
      · exact Or.inl rfl
    have hinterest : (m.grown fd).interest = m.interest := by
      rw [hresize]
      rfl
    refine ⟨fun fd' _ => ⟨congrFun hinterest fd', hevents fd'⟩, fun hknown hsome => ?_⟩
    rcases hevents fd with hsame | hfresh
    · rw [hinterest]
      exact hknown (hsame ▸ hsome)
    · exact absurd hfresh hsome

theorem touched_addEvent {task : Task} {b : Bool}
    (hrun : m.addEvent layout IOManager.epollCtl fd event task = .ok (b, m')) : Touched fd m m' :=
  (touched_grown m fd).trans (touched_registerEvent hrun)

theorem touched_dispatchEntry {first : BitVec 64} {e : IOManager.Manager.Entry}
    (hrun : IOManager.Manager.dispatchEntry layout first m (e, IOManager.epollCtl) = .ok m') :
    m' = m ∨ ∃ fd', Touched fd' m m' ∧ (m.context fd').events ≠ .none := by
  rw [IOManager.Manager.dispatchEntry] at hrun
  dsimp only at hrun
  split at hrun
  · cases hrun
    exact Or.inl rfl
  · split at hrun
    · cases hrun
    · next fd' hresolve =>
      split at hrun
      · cases hrun
        exact Or.inl rfl
      · next hhit =>
        split at hrun
        · cases hrun
          exact Or.inl rfl
        · next interest hctl =>
          obtain ⟨hinterest, hevents⟩ := triggerReal_events hrun
          refine Or.inr ⟨fd', ⟨fun fd hfd => ⟨?_, Or.inl ?_⟩, fun _ hsome => ?_⟩, fun hnone => hhit ?_⟩
          · rw [hinterest]
            exact IOManager.epollCtl_of_ne hctl hfd
          · rw [hevents, if_neg hfd]
          · rw [hevents, if_pos rfl] at hsome
            rw [hinterest]
            refine IOManager.epollCtl_isSome hctl ?_
            rw [if_pos hsome]
            exact fun heq => by cases heq
          · rw [hnone]
            simp [Events.inter, Events.none]

/-- What keeps the kernel's interest known and, without an addition, a descriptor stale. -/
structure Kept (added : Fd → Prop) (m m' : IOManager.Manager) : Prop where
  known : Known m → Known m'
  stale : ∀ fd, ¬ added fd → Stale m fd → Stale m' fd

namespace Kept

variable {added : Fd → Prop}

theorem refl (added : Fd → Prop) (m : IOManager.Manager) : Kept added m m := ⟨id, fun _ _ => id⟩

theorem trans {m₁ m₂ : IOManager.Manager} (h₁ : Kept added m m₁) (h₂ : Kept added m₁ m₂) :
    Kept added m m₂ :=
  ⟨h₂.known ∘ h₁.known, fun fd hno => h₂.stale fd hno ∘ h₁.stale fd hno⟩

/-- An operation that leaves a descriptor alone that waits for nothing. -/
theorem of_idle {fd : Fd} (h : Touched fd m m') (hidle : (m.context fd).events = .none → m' = m) :
    Kept added m m' := by
  refine ⟨h.keepsKnown, fun fd' _ hstale => ?_⟩
  by_cases hfd : fd' = fd
  · subst hfd
    rw [hidle hstale.events]
    exact hstale
  · exact h.keepsStale hfd hstale

theorem of_added {fd : Fd} (h : Touched fd m m') (hadded : added fd) : Kept added m m' := by
  refine ⟨h.keepsKnown, fun fd' hno hstale => ?_⟩
  apply h.keepsStale _ hstale
  rintro rfl
  exact hno hadded

theorem dispatchRounds {first : BitVec 64} {batch : List (IOManager.Manager.Entry × EpollCtl)}
    (hexact : ∀ e ∈ batch, e.2 = IOManager.epollCtl)
    (hrun : batch.foldlM (IOManager.Manager.dispatchEntry layout first) m = .ok m') :
    Kept added m m' := by
  induction batch generalizing m with
  | nil =>
      cases hrun
      exact refl added _
  | cons e batch ih =>
      rw [List.foldlM_cons] at hrun
      obtain ⟨m₁, hround, hrest⟩ := Outcome.bind_eq_ok.mp hrun
      have hctl : e = (e.1, IOManager.epollCtl) := Prod.ext rfl (hexact e List.mem_cons_self)
      rw [hctl] at hround
      have hfirst : Kept added m m₁ := by
        rcases touched_dispatchEntry hround with hsame | ⟨fd, htouched, hwaits⟩
        · rw [hsame]
          exact refl added _
        · exact of_idle htouched fun hnone => absurd hnone hwaits
      exact hfirst.trans (ih (fun e' he' => hexact e' (List.mem_cons_of_mem e he')) hrest)

theorem dispatch {batch : List (IOManager.Manager.Entry × EpollCtl)}
    (hexact : ∀ e ∈ batch, e.2 = IOManager.epollCtl) (hrun : m.dispatch layout batch = .ok m') :
    Kept added m m' := by
  cases batch with
  | nil =>
      cases hrun
      exact refl added m
  | cons e batch => exact dispatchRounds hexact hrun

theorem of_does {s t : State} {l : Label} (hexact : State.Exact l) (hdoes : Does layout s l t) :
    Kept (fun fd => s.Adds fd l) s.table t.table := by
  cases hdoes with
  | @added f ctl c timer table hpc hrun =>
      obtain rfl : ctl = IOManager.epollCtl := hexact
      exact of_added (touched_addEvent hrun) ⟨c, timer, hpc, rfl⟩
  | @refused f ctl c timer table hpc hrun =>
      obtain rfl : ctl = IOManager.epollCtl := hexact
      exact of_added (touched_addEvent hrun) ⟨c, timer, hpc, rfl⟩
  | notAdded hpc hcancel =>
      obtain ⟨timers, rfl, -⟩ := Inv.cancelTimer_eq_some hcancel
      exact refl _ _
  | resumed hpc hany => exact ⟨id, fun _ _ hstale => ⟨hstale.interest, hstale.events⟩⟩
  | disarmed hpc hcancel =>
      obtain ⟨timers, rfl, -⟩ := Inv.cancelTimer_eq_some hcancel
      exact refl _ _
  | dispatched hrun => exact dispatch hexact hrun
  | @cancelled c ctl b table hin hrun =>
      obtain rfl : ctl = IOManager.epollCtl := hexact
      obtain ⟨htouched, hidle⟩ := touched_cancelEvent hrun
      exact of_idle htouched fun hnone => hidle (has_of_none hnone _)
  | @deleted fd event ctl table hrun =>
      obtain rfl : ctl = IOManager.epollCtl := hexact
      obtain ⟨htouched, hidle⟩ := touched_delEvent hrun
      exact of_idle htouched fun hnone => hidle (has_of_none hnone _)
  | @table c b table hrun hkept =>
      cases c with
      | addEvent fd event task ctl =>
          obtain rfl : ctl = IOManager.epollCtl := hexact
          exact of_added (touched_addEvent hrun) rfl
      | delEvent fd event ctl =>
          obtain rfl : ctl = IOManager.epollCtl := hexact
          obtain ⟨htouched, hidle⟩ := touched_delEvent hrun
          exact of_idle htouched fun hnone => hidle (has_of_none hnone _)
      | cancelEvent fd event ctl =>
          obtain rfl : ctl = IOManager.epollCtl := hexact
          obtain ⟨htouched, hidle⟩ := touched_cancelEvent hrun
          exact of_idle htouched fun hnone => hidle (has_of_none hnone _)
      | cancelAllEvent fd ctl =>
          obtain rfl : ctl = IOManager.epollCtl := hexact
          obtain ⟨htouched, hidle⟩ := touched_cancelAllEvent hrun
          exact of_idle htouched hidle
  | _ => exact refl _ _

end Kept

/-- What `epoll_ctl` and the table agree on, in a run in which the kernel answers from its interest. -/
structure Agreed (s : State) : Prop where
  inv : Inv s
  known : Known s.table

theorem Agreed.init {s : State} (h : New s) : Agreed s where
  inv := Inv.init h
  known := by
    intro fd hevents
    rw [h.table] at hevents
    exact absurd rfl hevents

theorem Agreed.step {s t : State} (h : Agreed s) {l : Label} (hpossible : s.Possible l)
    (hexact : State.Exact l) (hdoes : Does layout s l t) : Agreed t where
  inv := h.inv.step hpossible hdoes
  known := (Kept.of_does hexact hdoes).known h.known

/-- `cancelEvent` of the only event of a descriptor: `context->events` still has the event when the
operation is chosen, which is `EPOLL_CTL_MOD` therefore. -/
theorem stale_of_cancelled (hsize : m.size < 2 ^ 31) (hin : fd.val < m.size) (hknown : Known m)
    (hsole : (m.context fd).events = .single event) {b : Bool}
    (hrun : m.cancelEvent layout IOManager.epollCtl fd event = .ok (b, m')) : Stale m' fd := by
  have hbit : (m.context fd).events.has event = true := by
    rw [hsole]
    cases event <;> rfl
  have hwaits : (m.context fd).events ≠ .none := IOManager.Manager.events_ne_none hbit
  rw [IOManager.Manager.cancelEvent, if_neg] at hrun
  · dsimp only at hrun
    rw [hbit, Bool.not_true, if_neg Bool.false_ne_true, if_pos hwaits,
      IOManager.epollCtl_mod (hknown fd hwaits)] at hrun
    obtain ⟨m₁, htrigger, hlast⟩ := Outcome.bind_eq_ok.mp hrun
    cases hlast
    obtain ⟨task, -, -, hinterest, -, hevents, -, -⟩ := triggerPending_eq_ok htrigger
    constructor
    · rw [hinterest]
      change (Function.update m.interest fd _ fd).isSome = true
      rw [Function.update_self]
      rfl
    · rw [hevents, if_pos rfl]
      change ((m.context fd).events).diff (.single event) = .none
      rw [hsole]
      cases event <;> rfl
  · rw [IOManager.Manager.intOfSize_size_le_iff hsize]
    omega

theorem registerEvent_of_stale (hstale : Stale m fd) (hin : fd.val < m.size) (task : Task) :
    ∃ m', m.registerEvent layout IOManager.epollCtl fd event task = .ok (false, m') := by
  have hctl : IOManager.epollCtl m.interest .add fd
      { events := ((Events.single event).union (m.context fd).events).edge, data := layout.addr fd }
      = none := by
    obtain ⟨want, hwant⟩ := Option.isSome_iff_exists.mp hstale.interest
    simp [IOManager.epollCtl, hwant]
  rw [IOManager.Manager.registerEvent, if_neg (by omega)]
  dsimp only
  rw [has_of_none hstale.events, if_neg Bool.false_ne_true, IOManager.Manager.addRequest]
  dsimp only
  rw [if_neg (not_not.mpr hstale.events), hctl]
  exact ⟨_, rfl⟩

/-- `EPOLL_CTL_ADD` of a descriptor in which the kernel is still interested. -/
theorem addEvent_of_stale (hsmall : Small m) (hstale : Stale m fd) (task : Task) :
    ∃ m', m.addEvent layout IOManager.epollCtl fd event task = .ok (false, m') := by
  have hgrown : Stale (m.grown fd) fd ∧ fd.val < (m.grown fd).size := by
    have htwo := hsmall.two_le
    by_cases hin : fd.val < m.size
    · rw [IOManager.Manager.grown_of_lt hsmall.size_lt hin]
      exact ⟨hstale, hin⟩
    · rcases IOManager.Manager.grown_cases m fd with ⟨-, hlarge⟩ | hresize
      · have hout := (IOManager.Manager.intOfSize_size_le_iff hsmall.size_lt fd).mpr (Nat.not_lt.mp hin)
        omega
      · have hsize : (m.grown fd).size = fd.val * 3 / 2 := by rw [hresize]; rfl
        refine ⟨⟨?_, ?_⟩, by omega⟩
        · rw [hresize]
          exact hstale.interest
        · rw [hresize, IOManager.Manager.context_contextResize]
          split
          · rfl
          · exact hstale.events
  exact registerEvent_of_stale hgrown.1 hgrown.2 task

end Interest

/-- **A timeout that takes the only event of a descriptor back leaves the descriptor unusable** for the
hooked calls until the descriptor is closed: the next event for it cannot be added. -/
theorem refused_after_timeout {s s₁ t : State} {c g c' : Nat} {timer : Option Nat}
    (hs : Transition.Reachable (Transition.Guarded (fun s l => s.Possible l ∧ State.Exact l)
      (State.Step layout)) New s)
    (hwaits : Registered s.table (s.call c).fiber (s.call c).fd (s.call c).event)
    (hsole : (s.table.context (s.call c).fd).events = .single (s.call c).event)
    (hcancel : s.step layout (.cancel c IOManager.epollCtl) = some s₁)
    (ht : Transition.Reachable (Transition.Guarded
      (fun t l => t.Possible l ∧ State.Exact l ∧ ¬ t.Adds (s.call c).fd l) (State.Step layout)) (· = s₁) t)
    (hadd : t.pc g = .adding c' timer) (hfd : (t.call c').fd = (s.call c).fd) :
    ∃ u, t.step layout (.add g IOManager.epollCtl) = some u ∧ u.pc g = .refused c' timer := by
  have hagreed : Agreed s := by
    apply Transition.Reachable.invariant (fun _ hnew => Agreed.init hnew) _ hs
    rintro s l t h ⟨⟨hpossible, hexact⟩, hstep⟩
    exact h.step hpossible hexact (does_of_step hstep)
  have hlast : Agreed t ∧ Stale t.table (s.call c).fd := by
    apply Transition.Reachable.invariant _ _ ht
    · rintro _ rfl
      have hpossible : s.Possible (.cancel c IOManager.epollCtl) := trivial
      have hdoes := does_of_step hcancel
      refine ⟨hagreed.step hpossible rfl hdoes, ?_⟩
      cases hdoes with
      | cancelled hin hrun =>
          have hsize : (s.call c).fd.val < s.table.size := by
            by_contra hout
            have hnone := hagreed.inv.small.empty _ (s.call c).event (Nat.not_lt.mp hout)
            cases hwaits.symm.trans hnone
          exact stale_of_cancelled hagreed.inv.small.size_lt hsize hagreed.known hsole hrun
    · rintro t l u ⟨h, hstale⟩ ⟨⟨hpossible, hexact, hno⟩, hstep⟩
      have hdoes := does_of_step hstep
      exact ⟨h.step hpossible hexact hdoes, (Kept.of_does hexact hdoes).stale _ hno hstale⟩
  obtain ⟨⟨hinv, -⟩, hstale⟩ := hlast
  rw [← hfd] at hstale
  obtain ⟨table, hrun⟩ := addEvent_of_stale hinv.small hstale (.fiber g)
  refine ⟨{ t.goto g (.refused c' timer) with table := table }, ?_, ?_⟩
  · have hstep : t.step layout (.add g IOManager.epollCtl)
        = t.add layout g c' timer IOManager.epollCtl := by simp only [State.step, hadd]
    rw [hstep, State.add, hrun]
    rfl
  · exact Function.update_self _ _ _

/-- The reader that has timed out reads again. -/
theorem refused_after_timeout_readsAgain : ∃ t u : State, t.returned = [(0, .timedOut etimedout)] ∧
    t.step IOManager.Layout.spaced (.add 0 IOManager.epollCtl) = some u ∧
      u.pc 0 = .refused 1 (some 1) := by
  let fires : List Label := [.expire 10 200, .fire 0, .write 0]
  let readsAgain : List Label :=
    [.resume 0, .disarm 0, .check 0, .call 0 5 (.io .read) true (some blocking), .answer 0 ⟨-1, eagain⟩,
      .arm 0 300 20]
  let look (s : State) : Option Bool :=
    (s.step IOManager.Layout.spaced (.cancel 0 IOManager.epollCtl)).bind fun s₁ =>
      (readsAgain.foldlM next s₁).map fun t =>
        (s.table.context 5).getEventContext .read = some (.fiber 0) ∧
          (s.table.context 5).events = .single .read ∧ (s.call 0).fiber = 0 ∧ (s.call 0).fd = 5 ∧
          (s.call 0).event = .read ∧ t.pc 0 = .adding 1 (some 1) ∧ (t.call 1).fd = 5 ∧
          t.returned = [(0, .timedOut etimedout)]
  have hlook : ((reads ++ fires).foldlM next fresh).map look = some (some true) := by decide +kernel
  obtain ⟨s, hrun, hseen⟩ := exists_of_script hlook
  obtain ⟨s₁, hcancel, hseen⟩ := Option.bind_eq_some_iff.mp hseen
  obtain ⟨t, hrest, hseen⟩ := Option.map_eq_some_iff.mp hseen
  obtain ⟨htask, hevents, hfiber, hfd', hevent, hpc, hfd, hreturned⟩ := of_decide_eq_true hseen
  have ht : Transition.Reachable (Transition.Guarded
      (fun t l => t.Possible l ∧ State.Exact l ∧ ¬ t.Adds (s.call 0).fd l)
      (State.Step IOManager.Layout.spaced)) (· = s₁) t := by
    refine reachable_of_script (fun u l hl h => ⟨h.1, h.2.1, ?_⟩) (.start rfl) hrest
    simp only [readsAgain, List.mem_cons, List.not_mem_nil, or_false] at hl
    rcases hl with rfl | rfl | rfl | rfl | rfl | rfl <;> exact id
  obtain ⟨u, hu⟩ := refused_after_timeout
    (reachable_of_script (fun _ _ _ h => ⟨h.1, h.2.1⟩) (.start new_fresh) hrun)
    (by rw [Registered, hfiber, hfd', hevent]; exact htask) (by rw [hfd', hevent]; exact hevents)
    hcancel ht hpc (hfd.trans hfd'.symm)
  exact ⟨t, u, hreturned, hu⟩

end AsyncRPC.HookedIO
