import AsyncRPC.HookedIO
import AsyncRPC.Proof.EpollFailure

/-!
# Who waits in the table

Whatever is done to the event table, a task in it is submitted, kept or dropped: the fibers that wait
there and those that are submitted stay apart.
-/

namespace AsyncRPC.IOManager.Manager

variable {layout : Layout} {m m' : Manager} {fd : Fd} {event : Event}

/-- What a trigger takes out of a context it submits. -/
theorem triggerPending_eq_ok (hrun : m.triggerPending fd event = .ok m') :
    ∃ task, (m.context fd).getEventContext event = some task ∧ m'.size = m.size ∧
      m'.interest = m.interest ∧
      (∀ fd' event', (m'.context fd').getEventContext event'
        = if fd' = fd ∧ event' = event then none else (m.context fd').getEventContext event') ∧
      (∀ fd', (m'.context fd').events
        = if fd' = fd then (m.context fd).events.diff (.single event) else (m.context fd').events) ∧
      (m.context fd).events.has event = true ∧
      m'.submitted = m.submitted ++ [(fd, event, task)] := by
  rw [triggerPending, triggerEvent] at hrun
  dsimp only at hrun
  split at hrun
  · next hevent =>
    split at hrun
    · cases hrun
    · next task htask =>
      cases hrun
      refine ⟨task, htask, rfl, rfl, ?_, ?_, hevent, rfl⟩
      · intro fd' event'
        dsimp only
        rw [context_setContext]
        by_cases hfd : fd' = fd
        · subst hfd
          rw [Function.update_self]
          cases event <;> cases event' <;> simp [FdContext.setEventContext, FdContext.getEventContext]
        · rw [Function.update_of_ne hfd, if_neg fun h => hfd h.1]
      · intro fd'
        dsimp only
        rw [context_setContext]
        by_cases hfd : fd' = fd
        · subst hfd
          rw [Function.update_self, if_pos rfl, events_setEventContext]
        · rw [Function.update_of_ne hfd, if_neg hfd]
  · cases hrun

/-- What holds whatever the kernel is interested in, and is kept by a trigger. -/
structure Stable (P : Manager → Prop) : Prop where
  interest : ∀ m interest, P m → P { m with interest := interest }
  trigger : ∀ {m fd event m'}, P m → m.triggerPending fd event = .ok m' → P m'

namespace Stable

variable {P : Manager → Prop}

theorem triggerIf (h : Stable P) {cond : Bool} (hm : P m) (hrun : m.triggerIf cond fd event = .ok m') :
    P m' := by
  rw [Manager.triggerIf] at hrun
  split at hrun
  · exact h.trigger hm hrun
  · cases hrun
    exact hm

theorem cancelEvent (h : Stable P) {ctl : EpollCtl} {b : Bool} (hm : P m)
    (hrun : m.call layout (.cancelEvent fd event ctl) = .ok (b, m')) : P m' := by
  obtain ⟨-, rfl⟩ | ⟨-, interest, htrigger⟩ := call_cancelEvent_cases hrun
  · exact hm
  · exact h.trigger (h.interest m interest hm) htrigger

theorem cancelAllEvent (h : Stable P) {ctl : EpollCtl} {b : Bool} (hm : P m)
    (hrun : m.call layout (.cancelAllEvent fd ctl) = .ok (b, m')) : P m' := by
  obtain ⟨-, rfl⟩ | ⟨-, interest, _, _, mid, hread, hwrite⟩ := call_cancelAllEvent_cases hrun
  · exact hm
  · exact h.triggerIf (h.triggerIf (h.interest m interest hm) hread) hwrite

theorem dispatchEntry (h : Stable P) {first : BitVec 64} {e : Entry × EpollCtl} (hm : P m)
    (hrun : Manager.dispatchEntry layout first m e = .ok m') : P m' := by
  rw [Manager.dispatchEntry] at hrun
  dsimp only at hrun
  split at hrun
  · cases hrun
    exact hm
  · split at hrun
    · cases hrun
    · split at hrun
      · cases hrun
        exact hm
      · split at hrun
        · cases hrun
          exact hm
        · obtain ⟨m₁, hread, hwrite⟩ := Outcome.bind_eq_ok.mp hrun
          exact h.triggerIf (h.triggerIf (h.interest m _ hm) hread) hwrite

theorem dispatchRounds (h : Stable P) (first : BitVec 64) {batch : List (Entry × EpollCtl)} (hm : P m)
    (hrun : batch.foldlM (Manager.dispatchEntry layout first) m = .ok m') : P m' := by
  induction batch generalizing m with
  | nil =>
      cases hrun
      exact hm
  | cons e batch ih =>
      rw [List.foldlM_cons] at hrun
      obtain ⟨m₁, hround, hrest⟩ := Outcome.bind_eq_ok.mp hrun
      exact ih (h.dispatchEntry hm hround) hrest

theorem dispatch (h : Stable P) {batch : List (Entry × EpollCtl)} (hm : P m)
    (hrun : m.dispatch layout batch = .ok m') : P m' := by
  cases batch with
  | nil =>
      cases hrun
      exact hm
  | cons e batch => exact h.dispatchRounds e.1.event.data hm hrun

end Stable

end AsyncRPC.IOManager.Manager

namespace AsyncRPC.HookedIO

open IOManager (Fd Event EpollCtl Layout Task)
open IOManager.Manager (Stable triggerPending_eq_ok)

variable {layout : Layout} {m m' : IOManager.Manager} {fd : Fd} {event : Event} {f : Nat}
variable {place : Nat → Option (Fd × Event)}

section Seats

theorem queued_append (hsubmitted : m'.submitted = m.submitted ++ [(fd, event, task)]) (f : Nat) :
    queued m' f = queued m f + if task = .fiber f then 1 else 0 := by
  rw [queued, queued, hsubmitted, List.countP_append, List.countP_singleton]
  simp [isOf]

/-- The tasks in the table are the same, and so are those submitted. -/
theorem Seated.congr (h : Seated m place)
    (htasks : ∀ fd event, (m'.context fd).getEventContext event = (m.context fd).getEventContext event)
    (hsubmitted : m'.submitted = m.submitted) : Seated m' place := by
  have hregistered : ∀ f fd event, Registered m' f fd event ↔ Registered m f fd event := by
    intro f fd event
    rw [Registered, Registered, htasks]
  have hqueued : ∀ f, queued m' f = queued m f := by
    intro f
    rw [queued, queued, hsubmitted]
  refine ⟨fun f fd event hin => ?_, fun f fd event hplace => ?_, fun f hplace => ?_⟩
  · rw [hqueued]
    exact h.registered f fd event ((hregistered f fd event).mp hin)
  · rw [hqueued, hregistered]
    exact h.waiting f fd event hplace
  · rw [hqueued]
    exact h.outside f hplace

theorem Seated.trigger (h : Seated m place) (hrun : m.triggerPending fd event = .ok m') :
    Seated m' place := by
  obtain ⟨task, htask, -, -, htasks, -, -, hsubmitted⟩ := triggerPending_eq_ok hrun
  have hqueued := queued_append hsubmitted
  have hown : ∀ f, task = .fiber f → Registered m f fd event := by
    rintro f rfl
    exact htask
  refine ⟨fun f fd' event' hin => ?_, fun f fd' event' hplace => ?_, fun f hplace => ?_⟩
  · rw [Registered, htasks] at hin
    split at hin
    · cases hin
    · next hother =>
      obtain ⟨hplace, hnone⟩ := h.registered f fd' event' hin
      refine ⟨hplace, ?_⟩
      rw [hqueued, hnone, if_neg]
      intro heq
      obtain ⟨hplace', -⟩ := h.registered f fd event (hown f heq)
      rw [hplace] at hplace'
      cases hplace'
      exact hother ⟨rfl, rfl⟩
  · rw [hqueued, Registered, htasks]
    rcases h.waiting f fd' event' hplace with hin | hone
    · by_cases hsame : fd' = fd ∧ event' = event
      · obtain ⟨rfl, rfl⟩ := hsame
        rw [Registered, htask] at hin
        refine Or.inr ?_
        rw [if_pos (Option.some.inj hin), (h.registered f fd' event' (htask.trans hin)).2]
      · rw [if_neg hsame]
        exact Or.inl hin
    · refine Or.inr ?_
      rw [hone, if_neg]
      intro heq
      have hzero := (h.registered f fd event (hown f heq)).2
      omega
  · rw [hqueued, h.outside f hplace, if_neg]
    intro heq
    have hplace' := (h.registered f fd event (hown f heq)).1
    rw [hplace] at hplace'
    cases hplace'

theorem stable_seated (place : Nat → Option (Fd × Event)) : Stable (Seated · place) where
  interest := fun _ _ h => h.congr (fun _ _ => rfl) rfl
  trigger := Seated.trigger

/-- The size of the table fits an `int`, growing it makes it longer, and no task waits past its end. -/
structure Small (m : IOManager.Manager) : Prop where
  size_lt : m.size < 2 ^ 31
  two_le : 2 ≤ m.size
  empty : ∀ fd event, m.size ≤ fd.val → (m.context fd).getEventContext event = none

theorem stable_small : Stable Small where
  interest := fun _ _ h => ⟨h.size_lt, h.two_le, h.empty⟩
  trigger := by
    intro m fd event m' h hrun
    obtain ⟨task, htask, hsize, -, htasks, -, -, -⟩ := triggerPending_eq_ok hrun
    refine ⟨hsize ▸ h.size_lt, hsize ▸ h.two_le, fun fd' event' hfd => ?_⟩
    rw [htasks, h.empty fd' event' (hsize ▸ hfd)]
    split
    · rfl
    · rfl

theorem getEventContext_fresh (event : Event) : IOManager.FdContext.fresh.getEventContext event = none := by
  cases event <;> rfl

/-- Growing the table moves no task. -/
theorem Small.grown (h : Small m) (hfd : fd.val < 2 ^ 30) :
    Small (m.grown fd) ∧ (m.grown fd).submitted = m.submitted ∧
      ∀ fd' event', ((m.grown fd).context fd').getEventContext event'
        = (m.context fd').getEventContext event' := by
  rcases IOManager.Manager.grown_cases m fd with ⟨hsame, -⟩ | hresize
  · rw [hsame]
    exact ⟨h, rfl, fun _ _ => rfl⟩
  · by_cases hin : fd.val < m.size
    · rw [IOManager.Manager.grown_of_lt h.size_lt hin]
      exact ⟨h, rfl, fun _ _ => rfl⟩
    · have htasks : ∀ fd' event', ((m.grown fd).context fd').getEventContext event'
          = (m.context fd').getEventContext event' := by
        intro fd' event'
        rw [hresize, IOManager.Manager.context_contextResize]
        split
        · next hnew =>
          rw [h.empty fd' event' hnew.1, getEventContext_fresh]
        · rfl
      have htwo := h.two_le
      refine ⟨⟨?_, ?_, fun fd' event' hout => ?_⟩, ?_, htasks⟩
      · rw [hresize]
        change fd.val * 3 / 2 < 2 ^ 31
        omega
      · rw [hresize]
        change 2 ≤ fd.val * 3 / 2
        omega
      · rw [htasks]
        rw [hresize] at hout
        change fd.val * 3 / 2 ≤ fd'.val at hout
        by_cases hsize : m.size ≤ fd'.val
        · exact h.empty fd' event' hsize
        · omega
      · rw [hresize]
        rfl

theorem getEventContext_events (context : IOManager.FdContext) (events : IOManager.Events) (event : Event) :
    ({ context with events := events } : IOManager.FdContext).getEventContext event
      = context.getEventContext event := by
  cases event <;> rfl

theorem getEventContext_setEventContext (context : IOManager.FdContext) (task : Option Task)
    (event event' : Event) : (context.setEventContext task event).getEventContext event'
      = if event' = event then task else context.getEventContext event' := by
  cases event <;> cases event' <;> rfl

theorem Small.registerEvent (h : Small m) {ctl : EpollCtl} {task : Task} {b : Bool}
    (hrun : m.registerEvent layout ctl fd event task = .ok (b, m')) :
    Small m' ∧ m'.submitted = m.submitted ∧
      if b then (m.context fd).getEventContext event = none ∧
        ∀ fd' event', (m'.context fd').getEventContext event'
          = if fd' = fd ∧ event' = event then some task else (m.context fd').getEventContext event'
      else ∀ fd' event', (m'.context fd').getEventContext event'
        = (m.context fd').getEventContext event' := by
  have hset : ∀ (context : IOManager.FdContext) (fd' : Fd) (event' : Event),
      ((m.setContext fd context).context fd').getEventContext event'
        = if fd' = fd then context.getEventContext event'
          else (m.context fd').getEventContext event' := by
    intro context fd' event'
    rw [IOManager.Manager.context_setContext]
    by_cases hsame : fd' = fd
    · rw [hsame, Function.update_self, if_pos rfl]
    · rw [Function.update_of_ne hsame, if_neg hsame]
  rw [IOManager.Manager.registerEvent] at hrun
  dsimp only at hrun
  split at hrun
  · cases hrun
  next hin =>
  split at hrun
  · cases hrun
  · split at hrun
    · cases hrun
      refine ⟨⟨h.size_lt, h.two_le, fun fd' event' hout => ?_⟩, rfl, ?_⟩
      · rw [hset, getEventContext_events]
        split
        · next hsame => exact h.empty fd event' (hsame ▸ hout)
        · exact h.empty fd' event' hout
      · rw [if_neg Bool.false_ne_true]
        intro fd' event'
        rw [hset, getEventContext_events]
        split
        · next hsame => rw [hsame]
        · rfl
    · split at hrun
      · cases hrun
      next hempty =>
      cases hrun
      rw [getEventContext_events, Bool.not_eq_true, Option.isSome_eq_false_iff,
        Option.isNone_iff_eq_none] at hempty
      refine ⟨⟨h.size_lt, h.two_le, fun fd' event' hout => ?_⟩, rfl, ?_⟩
      · change ((m.setContext fd _).context fd').getEventContext event' = none
        have hne : fd' ≠ fd := by
          rintro rfl
          exact hin hout
        rw [hset, if_neg hne]
        exact h.empty fd' event' hout
      · rw [if_pos rfl]
        refine ⟨hempty, fun fd' event' => ?_⟩
        change ((m.setContext fd _).context fd').getEventContext event' = _
        rw [hset, getEventContext_setEventContext, getEventContext_events]
        by_cases hsame : fd' = fd
        · subst hsame
          simp
        · rw [if_neg hsame, if_neg fun h => hsame h.1]

/-- A successful `addEvent` takes the place of nobody, and a failed one leaves the tasks alone. -/
theorem Small.addEvent (h : Small m) (hfd : fd.val < 2 ^ 30) {ctl : EpollCtl} {task : Task} {b : Bool}
    (hrun : m.addEvent layout ctl fd event task = .ok (b, m')) :
    Small m' ∧ m'.submitted = m.submitted ∧
      if b then (m.context fd).getEventContext event = none ∧
        ∀ fd' event', (m'.context fd').getEventContext event'
          = if fd' = fd ∧ event' = event then some task else (m.context fd').getEventContext event'
      else ∀ fd' event', (m'.context fd').getEventContext event'
        = (m.context fd').getEventContext event' := by
  obtain ⟨hgrown, hsubmitted, htasks⟩ := h.grown hfd
  obtain ⟨hsmall, hsubmitted', hregistered⟩ := hgrown.registerEvent hrun
  refine ⟨hsmall, hsubmitted'.trans hsubmitted, ?_⟩
  simpa only [htasks] using hregistered

/-- A fiber that waited nowhere takes a free place in the table. -/
theorem Seated.register (h : Seated m place) (hplace : place f = none)
    (hnone : (m.context fd).getEventContext event = none)
    (htasks : ∀ fd' event', (m'.context fd').getEventContext event'
      = if fd' = fd ∧ event' = event then some (.fiber f)
        else (m.context fd').getEventContext event')
    (hsubmitted : m'.submitted = m.submitted) :
    Seated m' (Function.update place f (some (fd, event))) := by
  have hqueued : ∀ g, queued m' g = queued m g := by
    intro g
    rw [queued, queued, hsubmitted]
  have hnowhere : ∀ fd event, ¬ Registered m f fd event := by
    intro fd event hin
    have hsome := (h.registered f fd event hin).1
    rw [hplace] at hsome
    cases hsome
  refine ⟨fun g fd' event' hin => ?_, fun g fd' event' hseat => ?_, fun g hseat => ?_⟩
  · rw [hqueued]
    rw [Registered, htasks] at hin
    split at hin
    · next hsame =>
      obtain ⟨rfl, rfl⟩ := hsame
      cases hin
      rw [Function.update_self]
      exact ⟨rfl, h.outside f hplace⟩
    · have hne : g ≠ f := by
        rintro rfl
        exact hnowhere fd' event' hin
      rw [Function.update_of_ne hne]
      exact h.registered g fd' event' hin
  · rw [hqueued, Registered, htasks]
    by_cases hg : g = f
    · subst hg
      rw [Function.update_self] at hseat
      cases hseat
      rw [if_pos ⟨rfl, rfl⟩]
      exact Or.inl rfl
    · rw [Function.update_of_ne hg] at hseat
      refine (h.waiting g fd' event' hseat).imp_left fun hin => ?_
      rw [if_neg]
      · exact hin
      · rintro ⟨rfl, rfl⟩
        rw [Registered, hnone] at hin
        cases hin
  · rw [hqueued]
    by_cases hg : g = f
    · subst hg
      exact h.outside g hplace
    · rw [Function.update_of_ne hg] at hseat
      exact h.outside g hseat

/-- Somebody else's callback takes a free place. -/
theorem Seated.callback (h : Seated m place) {id : Nat}
    (hnone : (m.context fd).getEventContext event = none)
    (htasks : ∀ fd' event', (m'.context fd').getEventContext event'
      = if fd' = fd ∧ event' = event then some (.callback id)
        else (m.context fd').getEventContext event')
    (hsubmitted : m'.submitted = m.submitted) : Seated m' place := by
  have hqueued : ∀ g, queued m' g = queued m g := by
    intro g
    rw [queued, queued, hsubmitted]
  have hregistered : ∀ g fd' event', Registered m' g fd' event' ↔ Registered m g fd' event' := by
    intro g fd' event'
    rw [Registered, Registered, htasks]
    split
    · next hsame =>
      obtain ⟨rfl, rfl⟩ := hsame
      rw [hnone]
      simp
    · exact Iff.rfl
  refine ⟨fun g fd' event' hin => ?_, fun g fd' event' hseat => ?_, fun g hseat => ?_⟩
  · rw [hqueued]
    exact h.registered g fd' event' ((hregistered g fd' event').mp hin)
  · rw [hqueued, hregistered]
    exact h.waiting g fd' event' hseat
  · rw [hqueued]
    exact h.outside g hseat

/-- The task that waits for an event is dropped, and whoever's it was waits no more. -/
theorem Seated.delete [∀ g, Decidable (Registered m g fd event)] (h : Seated m place)
    {place' : Nat → Option (Fd × Event)}
    (htasks : ∀ fd' event', (m'.context fd').getEventContext event'
      = if fd' = fd ∧ event' = event then none else (m.context fd').getEventContext event')
    (hsubmitted : m'.submitted = m.submitted)
    (hplace : ∀ g, place' g = if Registered m g fd event then none else place g) : Seated m' place' := by
  have hqueued : ∀ g, queued m' g = queued m g := by
    intro g
    rw [queued, queued, hsubmitted]
  refine ⟨fun g fd' event' hin => ?_, fun g fd' event' hseat => ?_, fun g hseat => ?_⟩
  · rw [hqueued, hplace]
    rw [Registered, htasks] at hin
    split at hin
    · cases hin
    · next hother =>
      obtain ⟨hseat, hzero⟩ := h.registered g fd' event' hin
      refine ⟨?_, hzero⟩
      rw [if_neg]
      · exact hseat
      · intro hgone
        have hseat' := (h.registered g fd event hgone).1
        rw [hseat] at hseat'
        cases hseat'
        exact hother ⟨rfl, rfl⟩
  · rw [hplace] at hseat
    split at hseat
    · cases hseat
    · next hkept =>
      rw [hqueued, Registered, htasks]
      refine (h.waiting g fd' event' hseat).imp_left fun hin => ?_
      rw [if_neg]
      · exact hin
      · rintro ⟨rfl, rfl⟩
        exact hkept hin
  · rw [hqueued]
    rw [hplace] at hseat
    split at hseat
    · next hgone => exact (h.registered g fd event hgone).2
    · exact h.outside g hseat

/-- Taking a task of a fiber leaves those of the others. -/
theorem queued_take (hany : m.submitted.any (isOf f) = true)
    (hsubmitted : m'.submitted = m.submitted.eraseP (isOf f)) (g : Nat) :
    queued m g = queued m' g + if g = f then 1 else 0 := by
  obtain ⟨task, htask, hf⟩ := List.any_eq_true.mp hany
  obtain ⟨mine, before, after, -, hmine, hlist, herase⟩ := List.exists_of_eraseP htask hf
  rw [queued, queued, hsubmitted, herase, hlist, List.countP_append, List.countP_append,
    List.countP_cons]
  have hown : mine.2.2 = .fiber f := of_decide_eq_true hmine
  by_cases hg : g = f
  · rw [hg, if_pos rfl, if_pos hmine]
    omega
  · have hne : ¬ isOf g mine = true := by
      intro heq
      exact hg (Task.fiber.inj ((of_decide_eq_true heq).symm.trans hown))
    rw [if_neg hg, if_neg hne]
    rfl

/-- A task of the fiber is executed. -/
theorem Seated.resume (h : Seated m place)
    (hany : m.submitted.any (isOf f) = true)
    (htasks : ∀ fd event, (m'.context fd).getEventContext event = (m.context fd).getEventContext event)
    (hsubmitted : m'.submitted = m.submitted.eraseP (isOf f)) :
    Seated m' (Function.update place f none) := by
  have hqueued := queued_take hany hsubmitted
  have hregistered : ∀ g fd event, Registered m' g fd event ↔ Registered m g fd event := by
    intro g fd event
    rw [Registered, Registered, htasks]
  have hnowhere : ∀ fd event, ¬ Registered m f fd event := by
    intro fd event hin
    have hzero := (h.registered f fd event hin).2
    have hone := hqueued f
    rw [if_pos rfl] at hone
    omega
  refine ⟨fun g fd event hin => ?_, fun g fd event hseat => ?_, fun g hseat => ?_⟩
  · have hg : g ≠ f := by
      rintro rfl
      exact hnowhere fd event ((hregistered g fd event).mp hin)
    have hsame := hqueued g
    rw [if_neg hg] at hsame
    obtain ⟨hseat, hzero⟩ := h.registered g fd event ((hregistered g fd event).mp hin)
    rw [Function.update_of_ne hg]
    exact ⟨hseat, by omega⟩
  · have hg : g ≠ f := by
      rintro rfl
      rw [Function.update_self] at hseat
      cases hseat
    have hsame := hqueued g
    rw [if_neg hg] at hsame
    rw [Function.update_of_ne hg] at hseat
    rw [hregistered]
    exact (h.waiting g fd event hseat).imp_right fun hone => by omega
  · have hsame := hqueued g
    by_cases hg : g = f
    · subst hg
      rw [if_pos rfl] at hsame
      cases hplace : place g with
      | none =>
          have hzero := h.outside g hplace
          omega
      | some p =>
          rcases h.waiting g p.1 p.2 hplace with hin | hone
          · exact absurd hin (hnowhere p.1 p.2)
          · omega
    · rw [if_neg hg] at hsame
      rw [Function.update_of_ne hg] at hseat
      have hzero := h.outside g hseat
      omega

end Seats

end AsyncRPC.HookedIO
