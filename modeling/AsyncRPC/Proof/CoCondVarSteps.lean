import AsyncRPC.Proof.CoCondVar

/-!
# What each step of a condition variable does

Most steps leave alone who is in which wait and who was notified. The others are the two ends of a
wait and the notifications.
-/

namespace AsyncRPC

namespace CoCondVar.State

variable {F : Type} [DecidableEq F] {s t : State F} {f : F} {k : Nat}

/-- What most steps leave: who is in which wait, who is about to leave it, and who was notified. -/
structure Calm (s t : State F) : Prop where
  ticket : ∀ g, (t.pc g).ticket = (s.pc g).ticket
  leaving : ∀ g k result, s.pc g = .leaving k result → t.pc g = .leaving k result
  notified : ∀ j, (t.waits j).any Wait.notified = (s.waits j).any Wait.notified
  waitQueue : t.waitQueue ⊆ s.waitQueue

omit [DecidableEq F] in
theorem calm_of_eq (hpc : t.pc = s.pc) (hwaits : t.waits = s.waits)
    (hqueue : t.waitQueue ⊆ s.waitQueue) : Calm s t where
  ticket g := by rw [hpc]
  leaving g k result hg := hpc ▸ hg
  notified j := by rw [hwaits]
  waitQueue := hqueue

omit [DecidableEq F] in
theorem Calm.trans {u : State F} (h : Calm s t) (h' : Calm t u) : Calm s u :=
  ⟨fun g => (h'.ticket g).trans (h.ticket g),
    fun g k result hg => h'.leaving g k result (h.leaving g k result hg),
    fun j => (h'.notified j).trans (h.notified j), fun _ hg => h.waitQueue (h'.waitQueue hg)⟩

theorem calm_goto {pc : Pc} (hticket : pc.ticket = (s.pc f).ticket)
    (hleaving : ∀ k result, s.pc f ≠ .leaving k result) : Calm s (s.goto f pc) where
  ticket := ticket_goto hticket
  leaving g k result hg := by
    have hgf : g ≠ f := fun heq => hleaving k result (heq ▸ hg)
    rw [pc_goto_of_ne hgf]
    exact hg
  notified _ := rfl
  waitQueue _ := id

omit [DecidableEq F] in
theorem calm_modify {change : Wait F → Wait F}
    (hsame : ∀ w, (change w).notified = w.notified) : Calm s (s.modify k change) where
  ticket _ := rfl
  leaving _ _ _ := id
  notified j := by
    by_cases hj : j = k
    · subst hj
      rw [waits_modify_self]
      cases s.waits j with
      | none => rfl
      | some w => exact hsame w
    · rw [waits_modify_of_ne change hj]
  waitQueue _ := id

omit [DecidableEq F] in
theorem calm_submit (s : State F) (f : F) (ticket : Option Nat) : Calm s (s.submit f ticket) := by
  have hready : Calm s { s with ready := s.ready ++ [f] } :=
    calm_of_eq rfl rfl (List.Subset.refl _)
  cases ticket with
  | none => exact hready
  | some k => exact hready.trans (calm_modify fun _ => rfl)

theorem calm_callback {w : Wait F} : Calm s (s.callback k w) := by
  have hcondition : Calm s (s.modify k fun w => { w with timeCondition := true, timer := .gone }) :=
    calm_modify fun _ => rfl
  have herase : Calm (s.modify k fun w => { w with timeCondition := true, timer := .gone })
      { s.modify k fun w => { w with timeCondition := true, timer := .gone } with
        waitQueue := s.waitQueue.erase w.fiber } :=
    calm_of_eq rfl rfl fun _ hg => List.mem_of_mem_erase hg
  exact (hcondition.trans herase).trans (calm_submit _ w.fiber (some k))

/-- The steps by which nobody enters or leaves a wait and nobody is notified. -/
def calm {F : Type} : Label F → Bool
  | .yield _ | .resume _ | .relock _ | .finish _ | .submit _ | .expire _ | .onTimer _
  | .callback _ => true
  | .wait _ | .waitFor _ | .leave _ | .notify _ | .notifyAll => false

theorem calm_step {l : Label F} (hcalm : calm l = true) (hstep : s.step l = some t) : Calm s t := by
  cases stepped_of_step hstep with
  | yield hpc => exact calm_goto (by rw [hpc]; rfl) (by rw [hpc]; simp)
  | @resume f k hready hpc =>
      have hready : Calm s { s with ready := s.ready.erase f } :=
        calm_of_eq rfl rfl (List.Subset.refl _)
      refine hready.trans (calm_goto ?_ ?_)
      · exact (congrArg Pc.ticket hpc).symm
      · exact fun j result hleaving => by cases hpc.symm.trans hleaving
  | resumeElsewhere => exact calm_of_eq rfl rfl (List.Subset.refl _)
  | @relock f k hpc =>
      have hgoto : Calm s (s.goto f (.relocking k)) :=
        calm_goto (by rw [hpc]; rfl) (by rw [hpc]; simp)
      have hcancel : Calm (s.goto f (.relocking k)) ((s.goto f (.relocking k)).modify k cancel) :=
        calm_modify fun w => (sameClaim_cancel w).notified
      have hboth := hgoto.trans hcancel
      exact ⟨hboth.ticket, hboth.leaving, hboth.notified, hboth.waitQueue⟩
  | @finish f k hpc =>
      have hgoto : Calm s (s.goto f (.leaving k (!(s.waits k).any Wait.timeCondition))) :=
        calm_goto (by rw [hpc]; rfl) (by rw [hpc]; simp)
      exact ⟨hgoto.ticket, hgoto.leaving, hgoto.notified, hgoto.waitQueue⟩
  | @submit p =>
      have hpending : Calm s { s with pending := s.pending.erase p } :=
        calm_of_eq rfl rfl (List.Subset.refl _)
      exact hpending.trans (calm_submit _ p.1 p.2)
  | expire => exact calm_modify fun _ => rfl
  | onTimer => exact calm_modify fun _ => rfl
  | callback => exact calm_callback
  | wait | waitFor | leave | leaveTimed | notify | notifyAll => cases hcalm

theorem leave_spec (hstep : s.step (.leave f) = some t) :
    (t.pc f).ticket = none ∧ (∀ g, g ≠ f → t.pc g = s.pc g) ∧
      (∀ j, (t.waits j).any Wait.notified = (s.waits j).any Wait.notified) ∧
      t.waitQueue = s.waitQueue := by
  have hleft : ∀ k result, t = (s.goto f .idle).modify k (fun w =>
      { w with alive := false, returned := some result }) →
      (t.pc f).ticket = none ∧ (∀ g, g ≠ f → t.pc g = s.pc g) ∧
        (∀ j, (t.waits j).any Wait.notified = (s.waits j).any Wait.notified) ∧
        t.waitQueue = s.waitQueue := by
    rintro k result rfl
    refine ⟨?_, fun g hg => pc_goto_of_ne hg, ?_, rfl⟩
    · rw [show ((s.goto f .idle).modify k _).pc f = .idle from pc_goto_self]
      rfl
    · have hcalm : Calm (s.goto f .idle) ((s.goto f .idle).modify k fun w =>
          { w with alive := false, returned := some result }) := calm_modify fun _ => rfl
      exact hcalm.notified
  cases stepped_of_step hstep with
  | leave => exact hleft _ true rfl
  | leaveTimed => exact hleft _ _ rfl

theorem notify_spec (hstep : s.step (.notify f) = some t) :
    f ∈ s.waitQueue ∧ t.pc = s.pc ∧ t.waitQueue = s.waitQueue.erase f ∧
      (∀ j, (s.waits j).any Wait.notified = true → (t.waits j).any Wait.notified = true) ∧
      ∀ k, (s.pc f).ticket = some k → (s.waits k).isSome = true →
        (t.waits k).any Wait.notified = true := by
  cases stepped_of_step hstep with
  | notify hmem =>
      cases hticket : (s.pc f).ticket with
      | none =>
          have htake : s.take f = { s with waitQueue := s.waitQueue.erase f } := by
            simp only [take, hticket]
          rw [htake]
          exact ⟨hmem, rfl, rfl, fun _ => id, fun _ hk => by cases hk⟩
      | some k =>
          have htake : s.take f = ({ s with waitQueue := s.waitQueue.erase f } : State F).modify k
              fun w => { w with notified := true } := by
            simp only [take, hticket]
          rw [htake]
          refine ⟨hmem, rfl, rfl, fun j hj => ?_, ?_⟩
          · by_cases hjk : j = k
            · subst hjk
              change ((State.modify _ j _).waits j).any Wait.notified = true
              rw [waits_modify_self]
              change ((s.waits j).map _).any Wait.notified = true
              cases hw : s.waits j with
              | none =>
                  rw [hw] at hj
                  cases hj
              | some w => rfl
            · change ((State.modify _ k _).waits j).any Wait.notified = true
              rw [waits_modify_of_ne _ hjk]
              exact hj
          · rintro _ ⟨rfl⟩ hsome
            change ((State.modify _ k _).waits k).any Wait.notified = true
            rw [waits_modify_self]
            obtain ⟨w, hw⟩ := Option.isSome_iff_exists.mp hsome
            change ((s.waits k).map _).any Wait.notified = true
            rw [hw]
            rfl

/-- Nobody enters a wait, and whoever was notified still is. -/
structure Remembers (s t : State F) : Prop where
  waitQueue : t.waitQueue ⊆ s.waitQueue
  notified : ∀ k, (s.waits k).any Wait.notified = true → (t.waits k).any Wait.notified = true

omit [DecidableEq F] in
theorem Remembers.refl (s : State F) : Remembers s s :=
  ⟨List.Subset.refl _, fun _ => id⟩

omit [DecidableEq F] in
theorem Calm.remembers (h : Calm s t) : Remembers s t :=
  ⟨h.waitQueue, fun k hk => (h.notified k).trans hk⟩

theorem remembers_leave (hstep : s.step (.leave f) = some t) : Remembers s t := by
  obtain ⟨-, -, hnotified, hqueue⟩ := leave_spec hstep
  exact ⟨fun _ hg => hqueue ▸ hg, fun k hk => (hnotified k).trans hk⟩

/-- `notify` takes a fiber out of the queue that was not notified before. -/
theorem Inv.notifies (h : s.Inv) (hstep : s.step (.notify f) = some t) :
    Remembers s t ∧ f ∈ s.waitQueue ∧ ∃ k, (s.pc f).ticket = some k ∧
      (s.waits k).any Wait.notified = false ∧ (t.waits k).any Wait.notified = true := by
  obtain ⟨hmem, -, hqueue, hnotified, hself⟩ := notify_spec hstep
  obtain ⟨k, hk⟩ := h.queued f hmem
  have hticket := Pc.ticket_of_waiting hk
  obtain ⟨w, hw, rfl, hwait⟩ := h.present hticket
  refine ⟨⟨?_, hnotified⟩, hmem, k, hticket, ?_, hself k hticket ?_⟩
  · rw [hqueue]
    exact List.erase_subset
  · rw [hw]
    exact (hwait.queued ⟨hmem, hticket⟩).2
  · rw [hw]
    rfl

theorem pc_wake (s : State F) (f : F) : (s.wake f).pc = s.pc := by
  have htake : (s.take f).pc = s.pc := by
    cases hticket : (s.pc f).ticket with
    | none => simp only [take, hticket]
    | some k =>
        simp only [take, hticket]
        rfl
  have hsubmit : ∀ ticket, ((s.take f).submit f ticket).pc = (s.take f).pc := by
    intro ticket
    cases ticket with
    | none => rfl
    | some k => rfl
  exact (hsubmit _).trans htake

theorem pc_notifyAll (hstep : s.step .notifyAll = some t) : t.pc = s.pc := by
  have hloop : ∀ (queue : List F) (s : State F), (queue.foldl wake s).pc = s.pc := by
    intro queue
    induction queue with
    | nil => exact fun _ => rfl
    | cons f queue ih =>
        intro s
        rw [List.foldl_cons, ih, pc_wake]
  cases stepped_of_step hstep with
  | notifyAll => exact hloop _ _

theorem insert_spec {timed : Bool} (hstep : s.step (if timed then .waitFor f else .wait f) = some t) :
    (s.pc f) = .idle ∧ (t.pc f).ticket = some s.next ∧ ∀ g, g ≠ f → t.pc g = s.pc g := by
  cases timed with
  | true =>
      cases stepped_of_step (l := .waitFor f) hstep with
      | waitFor hpc => exact ⟨hpc, congrArg Pc.ticket pc_insert_self, fun g hg => pc_insert_of_ne hg⟩
  | false =>
      cases stepped_of_step (l := .wait f) hstep with
      | wait hpc => exact ⟨hpc, congrArg Pc.ticket pc_insert_self, fun g hg => pc_insert_of_ne hg⟩

theorem finish_spec (hstep : s.step (.finish f) = some t) :
    ∃ k, (s.pc f).ticket = some k ∧ t.pc f = .leaving k (!(s.waits k).any Wait.timeCondition) := by
  cases stepped_of_step hstep with
  | finish hpc => exact ⟨_, congrArg Pc.ticket hpc, pc_goto_self⟩

end CoCondVar.State

end AsyncRPC
