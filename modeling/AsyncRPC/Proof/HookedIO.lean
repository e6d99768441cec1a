import AsyncRPC.Proof.HookedSeats
import AsyncRPC.Proof.TimerManager

/-!
# One wake-up for each wait

A fiber that a hooked call has suspended is woken once, by its event or by its timeout, and a call
whose event was deleted never returns.
-/

namespace AsyncRPC.HookedIO

open IOManager (Fd Event EpollCtl Layout Task)

variable {layout : Layout} {m m' : IOManager.Manager} {fd : Fd} {event : Event} {f : Nat}

section Steps

/-- What a step does, one case for each way through the code. -/
inductive Does (layout : Layout) (s : State) : Label → State → Prop
  | closed {f fd kind enabled fdctx} (hpc : s.pc f = .outside)
      (hgate : kind.gate enabled fdctx = .closed) :
      Does layout s (.call f fd kind enabled fdctx) (s.start f fd kind .closed)
  | direct {f fd kind enabled fdctx} (hpc : s.pc f = .outside)
      (hgate : kind.gate enabled fdctx = .direct) :
      Does layout s (.call f fd kind enabled fdctx) (s.start f fd kind .direct)
  | hooked {f fd kind enabled fdctx} {timeout : Nat} (hpc : s.pc f = .outside)
      (hgate : kind.gate enabled fdctx = .waits timeout) :
      Does layout s (.call f fd kind enabled fdctx) (s.start f fd kind (.waits timeout))
  | passed {f a c} (hpc : s.pc f = .direct c) :
      Does layout s (.answer f a) ((s.record c a).finish f c (.answered a))
  | interrupted {f a c} (hpc : s.pc f = .calling c)
      (ha : (s.call c).kind.interrupted a = true) : Does layout s (.answer f a) (s.record c a)
  | pending {f a c} (hpc : s.pc f = .calling c) (hno : (s.call c).kind.interrupted a = false)
      (ha : (s.call c).kind.pending a = true) :
      Does layout s (.answer f a) ((s.record c a).goto f (.arming c))
  | answered {f a c} (hpc : s.pc f = .calling c) (ha : (s.call c).kind.transient a = false) :
      Does layout s (.answer f a) ((s.record c a).finish f c (.answered a))
  | unarmed {f ptr now c} (hpc : s.pc f = .arming c) (hforever : (s.call c).timeout = forever) :
      Does layout s (.arm f ptr now) (s.goto f (.adding c none))
  | armed {f ptr now c timers} (hpc : s.pc f = .arming c) (hlong : (s.call c).timeout ≠ forever)
      (hrun : s.timers.perform (.addTimer ptr now (s.call c).timeout (some 0) false) = .ok timers) :
      Does layout s (.arm f ptr now)
        { s.goto f (.adding c (some s.timers.manager.made)) with
          timers := timers
          captured := Function.update s.captured s.timers.manager.made (some c)
          since := Function.update s.since s.timers.manager.made now }
  | added {f ctl c timer table} (hpc : s.pc f = .adding c timer)
      (hrun : s.table.addEvent layout ctl (s.call c).fd (s.call c).event (.fiber f)
        = .ok (true, table)) :
      Does layout s (.add f ctl) { s.goto f (.waiting c timer) with table := table }
  | refused {f ctl c timer table} (hpc : s.pc f = .adding c timer)
      (hrun : s.table.addEvent layout ctl (s.call c).fd (s.call c).event (.fiber f)
        = .ok (false, table)) :
      Does layout s (.add f ctl) { s.goto f (.refused c timer) with table := table }
  | notAdded {f c timer s'} (hpc : s.pc f = .refused c timer) (hcancel : s.cancelTimer timer = some s') :
      Does layout s (.refuse f) (s'.finish f c .notAdded)
  | resumed {f c timer} (hpc : s.pc f = .waiting c timer)
      (hany : s.table.submitted.any (isOf f) = true) :
      Does layout s (.resume f)
        { s.goto f (.resumed c timer) with
          table := { s.table with submitted := s.table.submitted.eraseP (isOf f) } }
  | disarmed {f c timer s'} (hpc : s.pc f = .resumed c timer)
      (hcancel : s.cancelTimer timer = some s') :
      Does layout s (.disarm f) (s'.goto f (.checking c))
  | retried {f c event} (hpc : s.pc f = .checking c) (hcondition : s.condition c = some 0)
      (hkind : (s.call c).kind = .io event) : Does layout s (.check f) (s.goto f (.calling c))
  | connected {f c timeout} (hpc : s.pc f = .checking c) (hcondition : s.condition c = some 0)
      (hkind : (s.call c).kind = .connect timeout) : Does layout s (.check f) (s.goto f (.finishing c))
  | timedOut {f c errno} (hpc : s.pc f = .checking c) (hcondition : s.condition c = some errno)
      (hset : errno ≠ 0) : Does layout s (.check f) (s.finish f c (.timedOut errno))
  | soError {f c error} (hpc : s.pc f = .finishing c) :
      Does layout s (.getsockopt f error) (s.finish f c (.soError error))
  | expired {curr ptr timers} (hrun : s.timers.perform (.listOverTimeCallback curr ptr) = .ok timers) :
      Does layout s (.expire curr ptr)
        { s with
          timers := timers
          callbacks := s.callbacks ++ s.timers.manager.expired curr ptr }
  | dispatched {batch table} (hrun : s.table.dispatch layout batch = .ok table) :
      Does layout s (.dispatch batch) { s with table := table }
  | dead {timer} (hin : timer ∈ s.callbacks) :
      Does layout s (.fire timer) { s with callbacks := s.callbacks.erase timer }
  | fired {timer c} (hin : timer ∈ s.callbacks) (hcaptured : s.captured timer = some c)
      (hlocks : s.locks c = true) (hcondition : s.condition c = some 0) :
      Does layout s (.fire timer)
        { s with
          callbacks := s.callbacks.erase timer
          writing := s.writing ++ [c] }
  | written {c} (hin : c ∈ s.writing) : Does layout s (.write c) (s.write c)
  | cancelled {c ctl b table} (hin : c ∈ s.cancelling)
      (hrun : s.table.cancelEvent layout ctl (s.call c).fd (s.call c).event = .ok (b, table)) :
      Does layout s (.cancel c ctl)
        { s with
          table := table
          cancelling := s.cancelling.erase c }
  | deleted {fd event ctl table} (hrun : s.table.delEvent layout ctl fd event = .ok (true, table)) :
      Does layout s (.table (.delEvent fd event ctl))
        { s with
          table := table
          deleted := s.deleted ++ (s.holding fd event).toList }
  | table {c b table} (hrun : s.table.call layout c = .ok (b, table))
      (hkept : ∀ fd event ctl, c = .delEvent fd event ctl → b = false) :
      Does layout s (.table c) { s with table := table }
  | timers {call timers} (hrun : s.timers.perform call = .ok timers) :
      Does layout s (.timers call) { s with timers := timers }

theorem does_of_step {s t : State} {l : Label} (h : s.step layout l = some t) : Does layout s l t := by
  cases l with
  | call f fd kind enabled fdctx =>
      rw [State.step] at h
      split at h
      · next hpc =>
        cases h
        cases hgate : kind.gate enabled fdctx with
        | closed => exact .closed hpc hgate
        | direct => exact .direct hpc hgate
        | waits timeout => exact .hooked hpc hgate
      · cases h
  | answer f a =>
      rw [State.step] at h
      split at h
      · next c hpc =>
        cases h
        exact .passed hpc
      · next c hpc =>
        rw [State.answer] at h
        cases hinterrupted : (s.call c).kind.interrupted a with
        | true =>
            have hrecord : ((s.record c a).call c).kind.interrupted a = true := hinterrupted
            simp only [hrecord, ↓reduceIte] at h
            cases h
            exact .interrupted hpc hinterrupted
        | false =>
            have hrecord : ((s.record c a).call c).kind.interrupted a = false := hinterrupted
            cases hpending : (s.call c).kind.pending a with
            | true =>
                have hrecord' : ((s.record c a).call c).kind.pending a = true := hpending
                simp only [hrecord, hrecord', Bool.false_eq_true, ↓reduceIte] at h
                cases h
                exact .pending hpc hinterrupted hpending
            | false =>
                have hrecord' : ((s.record c a).call c).kind.pending a = false := hpending
                simp only [hrecord, hrecord', Bool.false_eq_true, ↓reduceIte] at h
                cases h
                refine .answered hpc ?_
                rw [Kind.transient, hinterrupted, hpending]
                rfl
      · cases h
  | arm f ptr now =>
      rw [State.step] at h
      split at h
      · next c hpc =>
        rw [State.arm] at h
        dsimp only at h
        split at h
        · next hforever =>
          cases h
          exact .unarmed hpc hforever
        · next hlong =>
          obtain ⟨timers, hrun, rfl⟩ := Outcome.map_toOption_eq_some h
          exact .armed hpc hlong hrun
      · cases h
  | add f ctl =>
      rw [State.step] at h
      split at h
      · next c timer hpc =>
        obtain ⟨⟨b, table⟩, hrun, rfl⟩ := Outcome.map_toOption_eq_some h
        cases b with
        | true => exact .added hpc hrun
        | false => exact .refused hpc hrun
      · cases h
  | refuse f =>
      rw [State.step] at h
      split at h
      · next c timer hpc =>
        obtain ⟨s', hcancel, rfl⟩ := Option.map_eq_some_iff.mp h
        exact .notAdded hpc hcancel
      · cases h
  | resume f =>
      rw [State.step] at h
      split at h
      · next c timer hpc =>
        rw [State.resume] at h
        split at h
        · next hany =>
          cases h
          exact .resumed hpc hany
        · cases h
      · cases h
  | disarm f =>
      rw [State.step] at h
      split at h
      · next c timer hpc =>
        obtain ⟨s', hcancel, rfl⟩ := Option.map_eq_some_iff.mp h
        exact .disarmed hpc hcancel
      · cases h
  | check f =>
      rw [State.step] at h
      split at h
      · next c hpc =>
        rw [State.check] at h
        split at h
        · cases h
        · next hcondition =>
          split at h
          · next event hkind =>
            cases h
            exact .retried hpc hcondition hkind
          · next timeout hkind =>
            cases h
            exact .connected hpc hcondition hkind
        · next errno hne hcondition =>
          cases h
          exact .timedOut hpc hcondition fun hzero => hne (hzero ▸ rfl)
      · cases h
  | getsockopt f error =>
      rw [State.step] at h
      split at h
      · next c hpc =>
        cases h
        exact .soError hpc
      · cases h
  | expire curr ptr =>
      rw [State.step, State.expire] at h
      obtain ⟨timers, hrun, rfl⟩ := Outcome.map_toOption_eq_some h
      exact .expired hrun
  | dispatch batch =>
      obtain ⟨table, hrun, rfl⟩ := Outcome.map_toOption_eq_some h
      exact .dispatched hrun
  | fire timer =>
      rw [State.step] at h
      split at h
      · next hin =>
        cases h
        rw [State.fire]
        dsimp only
        split
        · exact .dead hin
        · next c hcaptured =>
          split
          · next hfires => exact .fired hin hcaptured hfires.1 hfires.2
          · exact .dead hin
      · cases h
  | write c =>
      rw [State.step] at h
      split at h
      · next hin =>
        cases h
        exact .written hin
      · cases h
  | cancel c ctl =>
      rw [State.step] at h
      split at h
      · next hin =>
        rw [State.cancel] at h
        obtain ⟨⟨b, table⟩, hrun, rfl⟩ := Outcome.map_toOption_eq_some h
        exact .cancelled hin hrun
      · cases h
  | table c =>
      rw [State.step, State.use] at h
      obtain ⟨⟨b, table⟩, hrun, rfl⟩ := Outcome.map_toOption_eq_some h
      dsimp only
      split
      · next fd event ctl =>
        cases b with
        | true => exact .deleted hrun
        | false =>
            rw [if_neg Bool.false_ne_true, List.append_nil]
            exact .table hrun fun _ _ _ _ => rfl
      · next hother =>
        rw [List.append_nil]
        exact .table hrun fun fd event ctl hc => absurd hc (hother fd event ctl)
  | timers call =>
      obtain ⟨timers, hrun, rfl⟩ := Outcome.map_toOption_eq_some h
      exact .timers hrun

end Steps

section Places

def Pc.isWaiting : Pc → Bool
  | .waiting _ _ => true
  | _ => false

theorem Pc.eq_waiting {pc : Pc} (h : pc.isWaiting = true) : ∃ c timer, pc = .waiting c timer := by
  cases pc with
  | waiting c timer => exact ⟨c, timer, rfl⟩
  | _ => cases h

variable {s t : State}

theorem State.place_eq_some : s.place f = some (fd, event) ↔
    ∃ c timer, s.pc f = .waiting c timer ∧ c ∉ s.deleted ∧
      (s.call c).fd = fd ∧ (s.call c).event = event := by
  rw [State.place]
  split
  · next c timer hpc =>
    rw [hpc]
    by_cases hin : c ∈ s.deleted
    · simp [hin]
    · simp [hin]
  · next hother =>
    constructor
    · intro h
      cases h
    · rintro ⟨c, timer, hpc, -⟩
      exact absurd hpc (hother c timer)

theorem State.place_of_not_waiting (h : (s.pc f).isWaiting = false) : s.place f = none := by
  rw [State.place]
  split
  · next hpc =>
    rw [hpc] at h
    cases h
  · rfl

theorem State.place_waiting {c : Nat} {timer : Option Nat} (hpc : s.pc f = .waiting c timer) :
    s.place f = if c ∈ s.deleted then none else some ((s.call c).fd, (s.call c).event) := by
  rw [State.place, hpc]

theorem State.place_congr {g : Nat} (hpc : t.pc g = s.pc g)
    (hcall : ∀ c, (s.pc g).call = some c → t.call c = s.call c) (hdeleted : t.deleted = s.deleted) :
    t.place g = s.place g := by
  rw [State.place, State.place, hpc, hdeleted]
  split
  · next c timer hwaiting => rw [hcall c (by rw [hwaiting]; rfl)]
  · rfl

/-- A fiber that neither begins nor ends to wait changes no place. -/
theorem State.place_update {pc : Pc} (hpc : t.pc = Function.update s.pc f pc)
    (hold : (s.pc f).isWaiting = false) (hnew : pc.isWaiting = false)
    (hcall : ∀ g c, g ≠ f → (s.pc g).call = some c → t.call c = s.call c)
    (hdeleted : t.deleted = s.deleted) : t.place = s.place := by
  funext g
  by_cases hg : g = f
  · subst hg
    rw [State.place_of_not_waiting hold, State.place_of_not_waiting]
    rw [hpc, Function.update_self]
    exact hnew
  · exact State.place_congr (by rw [hpc, Function.update_of_ne hg]) (fun c => hcall g c hg) hdeleted

end Places

/-- Each fiber is in a call of its own, and each wait has one wake-up. -/
structure Inv (s : State) : Prop where
  small : Small s.table
  seated : Seated s.table s.place
  own : ∀ f c, (s.pc f).call = some c →
    c < s.made ∧ (s.call c).fiber = f ∧ (s.call c).fd.val < 2 ^ 30
  deleted : ∀ c ∈ s.deleted, c < s.made ∧ ∃ timer, s.pc (s.call c).fiber = .waiting c timer

theorem submitted_delEvent {ctl : EpollCtl} {b : Bool}
    (hrun : m.delEvent layout ctl fd event = .ok (b, m')) : m'.submitted = m.submitted := by
  rw [IOManager.Manager.delEvent] at hrun
  dsimp only at hrun
  split at hrun
  · cases hrun
    rfl
  · split at hrun
    · cases hrun
      rfl
    · split at hrun
      · cases hrun
        rfl
      · cases hrun
        rfl

namespace Inv

variable {s t : State}

theorem init (h : New s) : Inv s where
  small := by
    rw [h.table]
    exact ⟨by decide, by decide, fun fd event _ => getEventContext_fresh event⟩
  seated := by
    have hempty : ∀ f fd event, ¬ Registered s.table f fd event := by
      intro f fd event hin
      rw [Registered, h.table] at hin
      rw [show (IOManager.Manager.init.context fd) = .fresh from rfl, getEventContext_fresh] at hin
      cases hin
    have hplace : ∀ f, s.place f = none := by
      intro f
      exact State.place_of_not_waiting (by rw [h.pc]; rfl)
    refine ⟨fun f fd event hin => absurd hin (hempty f fd event), fun f fd event hseat => ?_,
      fun f _ => ?_⟩
    · rw [hplace] at hseat
      cases hseat
    · rw [queued, h.table]
      rfl
  own := by
    intro f c hcall
    rw [h.pc] at hcall
    cases hcall
  deleted := by
    intro c hc
    rw [h.deleted] at hc
    cases hc

/-- The table has changed under the same fibers. -/
theorem retable (h : Inv s) (hsmall : Small t.table) (hseated : Seated t.table s.place)
    (hpc : t.pc = s.pc) (hcall : t.call = s.call) (hmade : t.made = s.made)
    (hdeleted : t.deleted = s.deleted) : Inv t where
  small := hsmall
  seated := by
    have hplace : t.place = s.place := by
      funext g
      exact State.place_congr (congrFun hpc g) (fun c _ => congrFun hcall c) hdeleted
    rw [hplace]
    exact hseated
  own := by
    rw [hpc, hcall, hmade]
    exact h.own
  deleted := by
    rw [hdeleted, hmade, hpc, hcall]
    exact h.deleted

/-- A fiber has gone on in its call, or out of it, and was and is not waiting. -/
theorem move (h : Inv s) {pc : Pc} (hpc : t.pc = Function.update s.pc f pc)
    (hold : (s.pc f).isWaiting = false) (hnew : pc.isWaiting = false)
    (hsame : ∀ c, pc.call = some c → (s.pc f).call = some c)
    (hsmall : Small t.table) (hseated : Seated t.table s.place)
    (hcall : t.call = s.call) (hmade : t.made = s.made) (hdeleted : t.deleted = s.deleted) :
    Inv t where
  small := hsmall
  seated := by
    rw [State.place_update hpc hold hnew (fun _ _ _ _ => congrFun hcall _) hdeleted]
    exact hseated
  own := by
    intro g c hg
    rw [hcall, hmade]
    by_cases hgf : g = f
    · subst hgf
      rw [hpc, Function.update_self] at hg
      exact h.own g c (hsame c hg)
    · rw [hpc, Function.update_of_ne hgf] at hg
      exact h.own g c hg
  deleted := by
    rw [hdeleted, hmade, hcall]
    intro c hc
    obtain ⟨hlt, timer, hwaiting⟩ := h.deleted c hc
    refine ⟨hlt, timer, ?_⟩
    rw [hpc, Function.update_of_ne]
    · exact hwaiting
    · intro heq
      rw [← heq, hwaiting] at hold
      cases hold

/-- A call is made. -/
theorem started (h : Inv s) {call : Call} {pc : Pc} (hfiber : call.fiber = f)
    (hfd : call.fd.val < 2 ^ 30) (hout : s.pc f = .outside)
    (hpc : t.pc = Function.update s.pc f pc) (hnew : pc.isWaiting = false)
    (hown : ∀ c, pc.call = some c → c = s.made) (htable : t.table = s.table)
    (hcall : t.call = Function.update s.call s.made call) (hmade : t.made = s.made + 1)
    (hdeleted : t.deleted = s.deleted) : Inv t where
  small := htable ▸ h.small
  seated := by
    have hcalls : ∀ g c, g ≠ f → (s.pc g).call = some c → t.call c = s.call c := by
      intro g c _ hg
      rw [hcall, Function.update_of_ne (h.own g c hg).1.ne]
    rw [htable, State.place_update hpc (by rw [hout]; rfl) hnew hcalls hdeleted]
    exact h.seated
  own := by
    intro g c hg
    rw [hmade]
    by_cases hgf : g = f
    · subst hgf
      rw [hpc, Function.update_self] at hg
      rw [hown c hg, hcall, Function.update_self]
      exact ⟨Nat.lt_succ_self _, hfiber, hfd⟩
    · rw [hpc, Function.update_of_ne hgf] at hg
      obtain ⟨hc, hrest⟩ := h.own g c hg
      rw [hcall, Function.update_of_ne hc.ne]
      exact ⟨hc.trans (Nat.lt_succ_self _), hrest⟩
  deleted := by
    intro c hc
    rw [hdeleted] at hc
    obtain ⟨hlt, timer, hwaiting⟩ := h.deleted c hc
    rw [hmade, hcall, Function.update_of_ne hlt.ne]
    refine ⟨hlt.trans (Nat.lt_succ_self _), timer, ?_⟩
    rw [hpc, Function.update_of_ne]
    · exact hwaiting
    · intro heq
      rw [heq, hout] at hwaiting
      cases hwaiting

theorem cancelTimer_eq_some {timer : Option Nat} (h : s.cancelTimer timer = some t) :
    ∃ timers, t = { s with timers := timers } ∧ (timer = none → timers = s.timers) ∧
      ∀ id, timer = some id → s.timers.perform (.cancel id) = .ok timers := by
  cases timer with
  | none =>
      cases h
      exact ⟨s.timers, rfl, fun _ => rfl, fun id hid => absurd hid (by simp)⟩
  | some id =>
      obtain ⟨timers, hrun, rfl⟩ := Outcome.map_toOption_eq_some h
      refine ⟨timers, rfl, fun hnone => absurd hnone (by simp), fun id' hid => ?_⟩
      cases hid
      exact hrun

/-- A fiber begins to wait: it is registered for its event. -/
theorem added (h : Inv s) {c : Nat} {timer : Option Nat} {ctl : EpollCtl} (hpc : s.pc f = .adding c timer)
    (hrun : s.table.addEvent layout ctl (s.call c).fd (s.call c).event (.fiber f)
      = .ok (true, t.table)) (hpc' : t.pc = Function.update s.pc f (.waiting c timer))
    (hcall : t.call = s.call) (hmade : t.made = s.made) (hdeleted : t.deleted = s.deleted) : Inv t := by
  obtain ⟨hc, hfiber, hfd⟩ := h.own f c (by rw [hpc]; rfl)
  obtain ⟨hsmall, hsubmitted, hnone, htasks⟩ := h.small.addEvent hfd hrun
  have hself : t.pc f = .waiting c timer := by rw [hpc', Function.update_self]
  have hother : ∀ g, g ≠ f → t.pc g = s.pc g := by
    intro g hg
    rw [hpc', Function.update_of_ne hg]
  have hnot : c ∉ s.deleted := by
    intro hin
    obtain ⟨-, timer', hwaiting⟩ := h.deleted c hin
    rw [hfiber, hpc] at hwaiting
    cases hwaiting
  have hplace : t.place = Function.update s.place f (some ((s.call c).fd, (s.call c).event)) := by
    funext g
    by_cases hg : g = f
    · subst hg
      rw [Function.update_self, State.place_waiting hself, hdeleted, if_neg hnot, hcall]
    · rw [Function.update_of_ne hg]
      exact State.place_congr (hother g hg) (fun c _ => congrFun hcall c) hdeleted
  refine ⟨hsmall, ?_, fun g c' hg => ?_, fun c' hc' => ?_⟩
  · rw [hplace]
    exact h.seated.register (State.place_of_not_waiting (by rw [hpc]; rfl)) hnone htasks hsubmitted
  · rw [hcall, hmade]
    by_cases hgf : g = f
    · subst hgf
      rw [hself] at hg
      cases hg
      exact ⟨hc, hfiber, hfd⟩
    · rw [hother g hgf] at hg
      exact h.own g c' hg
  · rw [hdeleted] at hc'
    obtain ⟨hlt, timer', hwaiting⟩ := h.deleted c' hc'
    rw [hcall, hmade]
    refine ⟨hlt, timer', (hother _ ?_).trans hwaiting⟩
    intro heq
    rw [heq, hpc] at hwaiting
    cases hwaiting

/-- A fiber is resumed, which no call is whose event was deleted. -/
theorem resumed (h : Inv s) {c : Nat} {timer : Option Nat} (hpc : s.pc f = .waiting c timer)
    (hany : s.table.submitted.any (isOf f) = true)
    (htable : t.table = { s.table with submitted := s.table.submitted.eraseP (isOf f) })
    (hpc' : t.pc = Function.update s.pc f (.resumed c timer)) (hcall : t.call = s.call)
    (hmade : t.made = s.made) (hdeleted : t.deleted = s.deleted) : Inv t := by
  have hself : t.pc f = .resumed c timer := by rw [hpc', Function.update_self]
  have hother : ∀ g, g ≠ f → t.pc g = s.pc g := by
    intro g hg
    rw [hpc', Function.update_of_ne hg]
  have hnot : c ∉ s.deleted := by
    intro hin
    have hzero := h.seated.outside f (by rw [State.place_waiting hpc, if_pos hin])
    obtain ⟨task, htask, hf⟩ := List.any_eq_true.mp hany
    have hpos : 0 < queued s.table f := List.countP_pos_iff.mpr ⟨task, htask, hf⟩
    omega
  have hplace : t.place = Function.update s.place f none := by
    funext g
    by_cases hg : g = f
    · subst hg
      rw [Function.update_self]
      exact State.place_of_not_waiting (by rw [hself]; rfl)
    · rw [Function.update_of_ne hg]
      exact State.place_congr (hother g hg) (fun c _ => congrFun hcall c) hdeleted
  refine ⟨?_, ?_, fun g c' hg => ?_, fun c' hc' => ?_⟩
  · rw [htable]
    exact ⟨h.small.size_lt, h.small.two_le, h.small.empty⟩
  · rw [hplace, htable]
    exact h.seated.resume hany (fun _ _ => rfl) rfl
  · rw [hcall, hmade]
    by_cases hgf : g = f
    · subst hgf
      rw [hself] at hg
      cases hg
      exact h.own g c (by rw [hpc]; rfl)
    · rw [hother g hgf] at hg
      exact h.own g c' hg
  · rw [hdeleted] at hc'
    obtain ⟨hlt, timer', hwaiting⟩ := h.deleted c' hc'
    rw [hcall, hmade]
    refine ⟨hlt, timer', (hother _ ?_).trans hwaiting⟩
    intro heq
    rw [heq, hpc] at hwaiting
    cases hwaiting
    exact hnot hc'

theorem holder_eq_some {g : Nat} : s.holder fd event = some g ↔ Registered s.table g fd event := by
  rw [State.holder, Registered]
  split
  · next f htask => rw [htask, Option.some_inj, Option.some_inj, Task.fiber.injEq]
  · next hother =>
    constructor
    · intro h
      cases h
    · intro h
      exact absurd h (hother g)

theorem holding_registered (h : Inv s) {g : Nat} (hin : Registered s.table g fd event) :
    ∃ c timer, s.pc g = .waiting c timer ∧ s.holding fd event = some c := by
  obtain ⟨c, timer, hpc, -⟩ := State.place_eq_some.mp (h.seated.registered g fd event hin).1
  refine ⟨c, timer, hpc, ?_⟩
  rw [State.holding, holder_eq_some.mpr hin, Option.bind_some, hpc]
  rfl

theorem registered_holding {c : Nat} (hc : s.holding fd event = some c) :
    ∃ g, Registered s.table g fd event ∧ (s.pc g).call = some c := by
  obtain ⟨g, hg, hcall⟩ := Option.bind_eq_some_iff.mp hc
  exact ⟨g, holder_eq_some.mp hg, hcall⟩

/-- An event is deleted, and the call of the fiber that waited for it with it. -/
theorem deletes (h : Inv s) {ctl : EpollCtl}
    (hrun : s.table.delEvent layout ctl fd event = .ok (true, t.table)) (hpc : t.pc = s.pc)
    (hcall : t.call = s.call) (hmade : t.made = s.made)
    (hdeleted : t.deleted = s.deleted ++ (s.holding fd event).toList) : Inv t := by
  classical
  obtain ⟨hb, -⟩ | ⟨-, -, hsize, hcontext, -⟩ := IOManager.Manager.call_delEvent_cases hrun
  · cases hb
  have htasks : ∀ fd' event', (t.table.context fd').getEventContext event'
      = if fd' = fd ∧ event' = event then none else (s.table.context fd').getEventContext event' := by
    intro fd' event'
    rw [hcontext]
    by_cases hfd : fd' = fd
    · subst hfd
      rw [Function.update_self]
      cases event <;> cases event' <;>
        simp [IOManager.FdContext.without, IOManager.Events.single, IOManager.FdContext.getEventContext]
    · rw [Function.update_of_ne hfd, if_neg fun hsame => hfd hsame.1]
  refine ⟨⟨hsize ▸ h.small.size_lt, hsize ▸ h.small.two_le, fun fd' event' hout => ?_⟩, ?_, ?_,
    fun c hc => ?_⟩
  · rw [htasks, h.small.empty fd' event' (hsize ▸ hout)]
    split
    · rfl
    · rfl
  · refine h.seated.delete htasks (submitted_delEvent hrun) fun g => ?_
    split
    · next hin =>
      obtain ⟨c, timer, hwaiting, hc⟩ := h.holding_registered hin
      rw [State.place_waiting (by rw [hpc]; exact hwaiting), hdeleted, hc, if_pos]
      exact List.mem_append_right _ (List.mem_singleton_self c)
    · next hout =>
      cases hwaiting : (s.pc g).isWaiting with
      | false =>
          rw [State.place_of_not_waiting hwaiting, State.place_of_not_waiting]
          rw [hpc]
          exact hwaiting
      | true =>
          obtain ⟨c, timer, hg⟩ := Pc.eq_waiting hwaiting
          have hiff : c ∈ t.deleted ↔ c ∈ s.deleted := by
            rw [hdeleted, List.mem_append, or_iff_left_iff_imp, Option.mem_toList]
            intro hc
            obtain ⟨g', hin, hcall'⟩ := registered_holding hc
            have hg' := (h.own g' c hcall').2.1
            have hown := (h.own g c (by rw [hg]; rfl)).2.1
            exact absurd (hg'.symm.trans hown ▸ hin) hout
          rw [State.place_waiting hg, State.place_waiting (by rw [hpc]; exact hg), hcall]
          simp only [hiff]
  · rw [hpc, hcall, hmade]
    exact h.own
  · rw [hpc, hcall, hmade]
    rw [hdeleted] at hc
    rcases List.mem_append.mp hc with hold | hnew
    · exact h.deleted c hold
    · obtain ⟨g, hin, hcall'⟩ := registered_holding (Option.mem_toList.mp hnew)
      obtain ⟨c', timer, hwaiting, hc'⟩ := h.holding_registered hin
      obtain rfl : c' = c := Option.some.inj ((congrArg Pc.call hwaiting).symm.trans hcall')
      obtain ⟨hlt, hfiber, -⟩ := h.own g c' hcall'
      exact ⟨hlt, timer, hfiber ▸ hwaiting⟩

/-- Somebody else's use of the table, but for an event that is deleted. -/
theorem used (h : Inv s) {c : IOManager.Manager.Call} {b : Bool} {table : IOManager.Manager}
    (hpossible : s.Possible (.table c)) (hrun : s.table.call layout c = .ok (b, table))
    (hkept : ∀ fd event ctl, c = .delEvent fd event ctl → b = false) :
    Small table ∧ Seated table s.place := by
  cases c with
  | addEvent fd event task ctl =>
      obtain ⟨hfd, id, rfl⟩ := hpossible fd event task ctl rfl
      obtain ⟨hsmall, hsubmitted, htasks⟩ := h.small.addEvent hfd hrun
      refine ⟨hsmall, ?_⟩
      cases b with
      | true => exact h.seated.callback htasks.1 htasks.2 hsubmitted
      | false => exact h.seated.congr htasks hsubmitted
  | delEvent fd event ctl =>
      obtain rfl := hkept fd event ctl rfl
      obtain ⟨-, rfl⟩ | ⟨hb, -⟩ := IOManager.Manager.call_delEvent_cases hrun
      · exact ⟨h.small, h.seated⟩
      · cases hb
  | cancelEvent fd event ctl =>
      exact ⟨stable_small.cancelEvent h.small hrun,
        (stable_seated s.place).cancelEvent h.seated hrun⟩
  | cancelAllEvent fd ctl =>
      exact ⟨stable_small.cancelAllEvent h.small hrun,
        (stable_seated s.place).cancelAllEvent h.seated hrun⟩

/-- **The step lemma.** -/
theorem step (h : Inv s) {l : Label} (hpossible : s.Possible l) (hdoes : Does layout s l t) : Inv t := by
  cases hdoes with
  | @closed f fd kind enabled fdctx hpc hgate =>
      have hfd : (⟨f, fd, kind, forever, false⟩ : Call).fd.val < 2 ^ 30 := hpossible
      exact h.started rfl hfd hpc (Function.update_eq_self_iff.mpr hpc.symm).symm rfl
        (fun c hc => by cases hc) rfl rfl rfl rfl
  | @direct f fd kind enabled fdctx hpc hgate =>
      have hfd : (⟨f, fd, kind, forever, false⟩ : Call).fd.val < 2 ^ 30 := hpossible
      have hown : ∀ c, (Pc.direct s.made).call = some c → c = s.made := by
        rintro c ⟨⟩
        rfl
      exact h.started rfl hfd hpc rfl rfl hown rfl rfl rfl rfl
  | @hooked f fd kind enabled fdctx timeout hpc hgate =>
      have hfd : (⟨f, fd, kind, timeout, true⟩ : Call).fd.val < 2 ^ 30 := hpossible
      have hown : ∀ c, (Pc.calling s.made).call = some c → c = s.made := by
        rintro c ⟨⟩
        rfl
      exact h.started rfl hfd hpc rfl rfl hown rfl rfl rfl rfl
  | passed hpc =>
      exact h.move rfl (by rw [hpc]; rfl) rfl (fun c hc => by cases hc) h.small h.seated rfl rfl rfl
  | interrupted hpc ha => exact h.retable h.small h.seated rfl rfl rfl rfl
  | pending hpc hno ha =>
      exact h.move rfl (by rw [hpc]; rfl) rfl (fun c hc => by rw [hpc]; exact hc) h.small h.seated
        rfl rfl rfl
  | answered hpc ha =>
      exact h.move rfl (by rw [hpc]; rfl) rfl (fun c hc => by cases hc) h.small h.seated rfl rfl rfl
  | unarmed hpc hforever =>
      exact h.move rfl (by rw [hpc]; rfl) rfl (fun c hc => by rw [hpc]; exact hc) h.small h.seated
        rfl rfl rfl
  | armed hpc hlong hrun =>
      exact h.move rfl (by rw [hpc]; rfl) rfl (fun c hc => by rw [hpc]; exact hc) h.small h.seated
        rfl rfl rfl
  | added hpc hrun => exact h.added hpc hrun rfl rfl rfl rfl
  | refused hpc hrun =>
      obtain ⟨-, -, hfd⟩ := h.own _ _ (by rw [hpc]; rfl)
      obtain ⟨hsmall, hsubmitted, htasks⟩ := h.small.addEvent hfd hrun
      exact h.move rfl (by rw [hpc]; rfl) rfl (fun c hc => by rw [hpc]; exact hc) hsmall
        (h.seated.congr htasks hsubmitted) rfl rfl rfl
  | notAdded hpc hcancel =>
      obtain ⟨timers, rfl, -⟩ := cancelTimer_eq_some hcancel
      exact h.move rfl (by rw [hpc]; rfl) rfl (fun c hc => by cases hc) h.small h.seated rfl rfl rfl
  | resumed hpc hany => exact h.resumed hpc hany rfl rfl rfl rfl rfl
  | disarmed hpc hcancel =>
      obtain ⟨timers, rfl, -⟩ := cancelTimer_eq_some hcancel
      exact h.move rfl (by rw [hpc]; rfl) rfl (fun c hc => by rw [hpc]; exact hc) h.small h.seated
        rfl rfl rfl
  | retried hpc hcondition hkind =>
      exact h.move rfl (by rw [hpc]; rfl) rfl (fun c hc => by rw [hpc]; exact hc) h.small h.seated
        rfl rfl rfl
  | connected hpc hcondition hkind =>
      exact h.move rfl (by rw [hpc]; rfl) rfl (fun c hc => by rw [hpc]; exact hc) h.small h.seated
        rfl rfl rfl
  | timedOut hpc hcondition hset =>
      exact h.move rfl (by rw [hpc]; rfl) rfl (fun c hc => by cases hc) h.small h.seated rfl rfl rfl
  | soError hpc =>
      exact h.move rfl (by rw [hpc]; rfl) rfl (fun c hc => by cases hc) h.small h.seated rfl rfl rfl
  | expired hrun => exact h.retable h.small h.seated rfl rfl rfl rfl
  | dispatched hrun =>
      exact h.retable (stable_small.dispatch h.small hrun)
        ((stable_seated s.place).dispatch h.seated hrun) rfl rfl rfl rfl
  | dead hin => exact h.retable h.small h.seated rfl rfl rfl rfl
  | fired hin hcaptured hlocks hcondition => exact h.retable h.small h.seated rfl rfl rfl rfl
  | written hin => exact h.retable h.small h.seated rfl rfl rfl rfl
  | cancelled hin hrun =>
      exact h.retable (stable_small.cancelEvent h.small hrun)
        ((stable_seated s.place).cancelEvent h.seated hrun) rfl rfl rfl rfl
  | deleted hrun => exact h.deletes hrun rfl rfl rfl rfl
  | table hrun hkept =>
      obtain ⟨hsmall, hseated⟩ := h.used hpossible hrun hkept
      exact h.retable hsmall hseated rfl rfl rfl rfl
  | timers hrun => exact h.retable h.small h.seated rfl rfl rfl rfl

end Inv

theorem inv_of_reached {s : State} (h : Reached layout s) : Inv s :=
  h.invariant (fun _ hnew => Inv.init hnew) fun _ _ _ hinv hstep =>
    hinv.step hstep.1 (does_of_step hstep.2)

section Scripts

/-- A kernel that answers from its interest map. -/
def exactly : Label → Label
  | .add f _ => .add f IOManager.epollCtl
  | .cancel c _ => .cancel c IOManager.epollCtl
  | l => l

/-- A step of the fibers and their timers alone, on one thread. -/
def plain (s : State) : Label → Bool
  | .call _ fd _ _ _ => fd.val < 2 ^ 30
  | .arm _ ptr _ | .expire _ ptr =>
      s.timers.manager.timers.all fun id => (s.timers.manager.objects id).ptr ≠ ptr
  | .write c =>
      match s.pc (s.call c).fiber with
      | .waiting c' _ => c' = c
      | _ => false
  | .cancel c _ => (s.table.interest (s.call c).fd).isSome
  | .dispatch _ | .table _ | .timers _ => false
  | _ => true

theorem plain_exactly {s : State} {l : Label} (h : plain s (exactly l) = true) :
    s.Possible (exactly l) ∧ State.Exact (exactly l) ∧ s.Calm (exactly l) := by
  have hunused : ∀ ptr, (s.timers.manager.timers.all fun id =>
      decide ((s.timers.manager.objects id).ptr ≠ ptr)) = true → s.timers.Unused ptr := by
    intro ptr hall id hid
    simpa using List.all_eq_true.mp hall id hid
  cases l with
  | call f fd kind enabled fdctx =>
      have hfd : fd.val < 2 ^ 30 := of_decide_eq_true h
      exact ⟨hfd, trivial, trivial⟩
  | arm f ptr now => exact ⟨hunused ptr h, trivial, trivial⟩
  | expire curr ptr => exact ⟨hunused ptr h, trivial, trivial⟩
  | add f ctl => exact ⟨trivial, rfl, trivial⟩
  | write c =>
      refine ⟨trivial, trivial, ?_⟩
      simp only [plain, exactly] at h
      split at h
      · next c' timer hpc => exact ⟨timer, by rw [hpc, of_decide_eq_true h]⟩
      · cases h
  | cancel c ctl =>
      refine ⟨trivial, rfl, fun op event hop => ?_⟩
      cases op with
      | add => exact absurd rfl hop
      | mod =>
          rw [IOManager.epollCtl_mod h]
          rfl
      | del =>
          rw [IOManager.epollCtl_del h]
          rfl
  | dispatch batch => cases h
  | table c => cases h
  | timers call => cases h
  | _ => exact ⟨trivial, trivial, trivial⟩

def fresh : State :=
  { table := .init
    timers := .init
    pc := fun _ => .outside
    call := fun _ => ⟨0, 0, .io .read, 0, false⟩
    made := 0
    condition := fun _ => none
    captured := fun _ => none
    since := fun _ => 0
    callbacks := []
    writing := []
    cancelling := []
    answers := fun _ => []
    returned := []
    deleted := [] }

def next (s : State) (l : Label) : Option State :=
  Transition.guarded (fun s l => plain s l = true) (State.step IOManager.Layout.spaced) s (exactly l)

theorem new_fresh : New fresh :=
  ⟨rfl, rfl, fun _ => rfl, rfl, fun _ => rfl, fun _ => rfl, rfl, rfl, rfl, fun _ => rfl, rfl, rfl⟩

theorem reachable_of_script {labels : List Label} {guard : State → Label → Prop} {init : State → Prop}
    {s t : State} (hguard : ∀ s, ∀ l ∈ labels, s.Possible (exactly l) ∧ State.Exact (exactly l) ∧
      s.Calm (exactly l) → guard s (exactly l))
    (hs : Transition.Reachable (Transition.Guarded guard (State.Step IOManager.Layout.spaced)) init s)
    (hrun : labels.foldlM next s = some t) :
    Transition.Reachable (Transition.Guarded guard (State.Step IOManager.Layout.spaced)) init t := by
  induction labels generalizing s with
  | nil =>
      cases hrun
      exact hs
  | cons l labels ih =>
      rw [List.foldlM_cons] at hrun
      obtain ⟨u, hnext, hrest⟩ := Option.bind_eq_some_iff.mp hrun
      obtain ⟨hplain, hstep⟩ := Transition.guarded_step s (exactly l) u hnext
      have hmeets := hguard s l List.mem_cons_self (plain_exactly hplain)
      exact ih (fun s m hm => hguard s m (List.mem_cons_of_mem l hm)) (hs.next ⟨hmeets, hstep⟩) hrest

theorem reached_of_script {labels : List Label} {t : State} (hrun : labels.foldlM next fresh = some t) :
    Reached IOManager.Layout.spaced t :=
  reachable_of_script (fun _ _ _ h => h.1) (.start new_fresh) hrun

/-- What a script leads to. -/
theorem exists_of_script {labels : List Label} {α : Type} {look : State → α} {a : α}
    (h : (labels.foldlM next fresh).map look = some a) :
    ∃ t, labels.foldlM next fresh = some t ∧ look t = a :=
  Option.map_eq_some_iff.mp h

def blocking : FdManager.FdContext :=
  { FdManager.FdContext.fresh 5 with
    isInit := true
    isSocket := true
    sysNonblock := true
    recvTimeout := 10 }

/-- A fiber reads, with a timeout of 10 ms, from a socket that has no data. -/
def reads : List Label :=
  [.call 0 5 (.io .read) true (some blocking), .answer 0 ⟨-1, eagain⟩, .arm 0 100 0,
    .add 0 IOManager.epollCtl]

/-- And times out. -/
def readsInVain : List Label :=
  reads ++ [.expire 10 200, .fire 0, .write 0, .cancel 0 IOManager.epollCtl, .resume 0, .disarm 0,
    .check 0]

end Scripts

/-- **One wake-up for each wait**: a suspended fiber is waited for by the table or has one task
submitted, never both, and any other fiber has neither. -/
theorem one_wakeup {s : State} (h : Reached layout s) : Seated s.table s.place :=
  (inv_of_reached h).seated

/-- A reader that the table waits for. -/
theorem one_wakeup_reads : ∃ s, Reached IOManager.Layout.spaced s ∧ s.place 0 = some (5, .read) ∧
    Seated s.table s.place := by
  have hplace : (reads.foldlM next fresh).map (State.place · 0) = some (some (5, .read)) := by
    decide +kernel
  obtain ⟨s, hrun, hreads⟩ := exists_of_script hplace
  exact ⟨s, reached_of_script hrun, hreads, one_wakeup (reached_of_script hrun)⟩

end AsyncRPC.HookedIO
