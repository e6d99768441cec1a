import AsyncRPC.CoCondVar
import AsyncRPC.Lib.Parties
import Mathlib.Data.List.Nodup

/-!
# One wake-up per wait

A wait is worth one submission of its fiber. The claim to it lies in the wait queue at first; `notify`
takes it along and turns it in later, `notifyAll` and the timer's callback turn it in at once. As long
as no callback turns in a claim that `notify` has taken, each wait has its one claim in one place, and
what the scheduler holds for a fiber is what its present wait has turned in.
-/

namespace AsyncRPC.CoCondVar

open Transition

variable {F : Type} [DecidableEq F] {s t : State F} {f : F} {k : Nat} {w : Wait F} {old new : Pc}

/-- The wait of a fiber that has not been resumed. -/
def Pc.waiting : Pc → Option Nat
  | .inserted k | .parked k => some k
  | _ => none

theorem Pc.ticket_of_waiting {pc : Pc} (h : pc.waiting = some k) : pc.ticket = some k := by
  cases pc with
  | inserted j => exact h
  | parked j => exact h
  | idle => cases h
  | resumed j => cases h
  | relocking j => cases h
  | leaving j b => cases h

namespace State

/-- The claim of a wait is in the queue. -/
def Queued (s : State F) (k : Nat) (w : Wait F) : Prop :=
  w.fiber ∈ s.waitQueue ∧ (s.pc w.fiber).ticket = some k

instance : Decidable (s.Queued k w) := inferInstanceAs (Decidable (_ ∧ _))

/-- What the present wait of a fiber has turned in. -/
def owed (s : State F) (f : F) : Nat :=
  match (s.pc f).waiting with
  | some k => (s.waits k).elim 0 Wait.submitted
  | none => 0

structure WaitInv (s : State F) (k : Nat) (w : Wait F) : Prop where
  claim : w.submitted + s.pending.count (w.fiber, some k) + (if s.Queued k w then 1 else 0) = 1
  queued : s.Queued k w → w.timeCondition = false ∧ w.notified = false
  notified : w.notified = true → w.timeCondition = false
  untimed : w.timed = false → w.timer = .gone ∧ w.timeCondition = false
  returned : ∀ result, w.returned = some result →
    result = !w.timeCondition ∧ (s.pc w.fiber).ticket ≠ some k

structure Inv (s : State F) : Prop where
  fresh : ∀ k, s.next ≤ k → s.waits k = none
  fiber : ∀ f k, (s.pc f).ticket = some k → ∃ w, s.waits k = some w ∧ w.fiber = f
  nodup : s.waitQueue.Nodup
  queued : ∀ f ∈ s.waitQueue, ∃ k, (s.pc f).waiting = some k
  pending : ∀ p ∈ s.pending, ∃ k, p.2 = some k ∧ (s.pc p.1).waiting = some k
  ready : ∀ f, s.ready.count f = s.owed f
  waits : ∀ k w, s.waits k = some w → s.WaitInv k w
  leaving : ∀ f k result w, s.pc f = .leaving k result → s.waits k = some w →
    result = !w.timeCondition

theorem Inv.oneWakeup (h : s.Inv) : s.OneWakeup where
  once := by
    intro k w hw
    have hclaim := (h.waits k w hw).claim
    omega
  notified := by
    intro k w result hw hnotified hreturned
    rw [((h.waits k w hw).returned result hreturned).1, (h.waits k w hw).notified hnotified]
    rfl

theorem inv_of_new (h : New s) : s.Inv where
  fresh := fun k _ => h.waits k
  fiber := by
    intro f k hticket
    rw [h.pc f] at hticket
    cases hticket
  nodup := by
    rw [h.waitQueue]
    exact List.nodup_nil
  queued := by
    intro f hf
    rw [h.waitQueue] at hf
    cases hf
  pending := by
    intro p hp
    rw [h.pending] at hp
    cases hp
  ready := by
    intro f
    rw [h.ready, owed, h.pc f]
    rfl
  waits := by
    intro k w hw
    rw [h.waits k] at hw
    cases hw
  leaving := by
    intro f k result w hpc
    rw [h.pc f] at hpc
    cases hpc

section Effects

theorem pc_goto_self : (s.goto f new).pc f = new := by
  simp [State.goto]

theorem pc_goto_of_ne {g : F} (hg : g ≠ f) : (s.goto f new).pc g = s.pc g := by
  simp [State.goto, hg]

omit [DecidableEq F] in
theorem waits_modify_self (change : Wait F → Wait F) :
    (s.modify k change).waits k = (s.waits k).map change := by
  simp [State.modify]

omit [DecidableEq F] in
theorem waits_modify_of_ne (change : Wait F → Wait F) {j : Nat} (hj : j ≠ k) :
    (s.modify k change).waits j = s.waits j := by
  simp [State.modify, hj]

omit [DecidableEq F] in
theorem forall_modify {P : Nat → Wait F → Prop} {change : Wait F → Wait F}
    (hself : ∀ w, s.waits k = some w → P k (change w))
    (hother : ∀ j w, j ≠ k → s.waits j = some w → P j w) (j : Nat) (w : Wait F)
    (hw : (s.modify k change).waits j = some w) : P j w := by
  by_cases hj : j = k
  · subst hj
    rw [waits_modify_self] at hw
    obtain ⟨v, hv, rfl⟩ := Option.map_eq_some_iff.mp hw
    exact hself v hv
  · rw [waits_modify_of_ne change hj] at hw
    exact hother j w hj hw

/-- The claim of a wait lies where it did, and its fiber has not come back to it. -/
theorem WaitInv.congr (hw : s.WaitInv k w) (hqueued : t.Queued k w ↔ s.Queued k w)
    (hpending : t.pending.count (w.fiber, some k) = s.pending.count (w.fiber, some k))
    (hticket : (t.pc w.fiber).ticket = some k → (s.pc w.fiber).ticket = some k) :
    t.WaitInv k w where
  claim := by
    simp only [hpending, hqueued]
    exact hw.claim
  queued := fun h => hw.queued (hqueued.mp h)
  notified := hw.notified
  untimed := hw.untimed
  returned := by
    intro result hreturned
    obtain ⟨hresult, hgone⟩ := hw.returned result hreturned
    exact ⟨hresult, fun h => hgone (hticket h)⟩

theorem ticket_goto (hticket : new.ticket = (s.pc f).ticket) (g : F) :
    ((s.goto f new).pc g).ticket = (s.pc g).ticket :=
  Parties.get_update Pc.ticket hticket g

theorem queued_goto (hticket : new.ticket = (s.pc f).ticket) :
    (s.goto f new).Queued k w ↔ s.Queued k w := by
  rw [Queued, Queued, ticket_goto hticket]
  rfl

theorem waiting_goto (hwaiting : new.waiting = (s.pc f).waiting) (g : F) :
    ((s.goto f new).pc g).waiting = (s.pc g).waiting :=
  Parties.get_update Pc.waiting hwaiting g

omit [DecidableEq F] in
theorem owed_congr {g : F} (hpc : (t.pc g).waiting = (s.pc g).waiting)
    (hwaits : ∀ k, (s.pc g).waiting = some k →
      (t.waits k).elim 0 Wait.submitted = (s.waits k).elim 0 Wait.submitted) :
    t.owed g = s.owed g := by
  unfold owed
  rw [hpc]
  cases hk : (s.pc g).waiting with
  | none => rfl
  | some k => exact hwaits k hk

/-- A fiber moves on in its wait without being resumed. -/
theorem Inv.goto (h : s.Inv) (hticket : new.ticket = (s.pc f).ticket)
    (hwaiting : new.waiting = (s.pc f).waiting)
    (hleaving : ∀ k result w, new = .leaving k result → s.waits k = some w →
      result = !w.timeCondition) : (s.goto f new).Inv where
  fresh := h.fresh
  fiber := by
    intro g k hk
    rw [ticket_goto hticket] at hk
    exact h.fiber g k hk
  nodup := h.nodup
  queued := by
    intro g hg
    rw [waiting_goto hwaiting]
    exact h.queued g hg
  pending := by
    intro p hp
    rw [waiting_goto hwaiting]
    exact h.pending p hp
  ready := by
    intro g
    rw [owed_congr (waiting_goto hwaiting g) fun _ _ => rfl]
    exact h.ready g
  waits := by
    intro k w hw
    exact (h.waits k w hw).congr (queued_goto hticket) rfl (ticket_goto hticket _ ▸ ·)
  leaving := by
    intro g k result w hg hw
    by_cases hgf : g = f
    · subst hgf
      rw [pc_goto_self] at hg
      exact hleaving k result w hg hw
    · rw [pc_goto_of_ne hgf] at hg
      exact h.leaving g k result w hg hw

/-- Only the timer and its condition's owner change. -/
structure SameClaim (w w' : Wait F) : Prop where
  fiber : w'.fiber = w.fiber
  timed : w'.timed = w.timed
  timeCondition : w'.timeCondition = w.timeCondition
  notified : w'.notified = w.notified
  submitted : w'.submitted = w.submitted
  returned : w'.returned = w.returned
  timer : w.timer = .gone → w'.timer = .gone

theorem WaitInv.sameClaim {w' : Wait F} (hw : s.WaitInv k w) (h : SameClaim w w') :
    s.WaitInv k w' := by
  have hqueued : s.Queued k w' ↔ s.Queued k w := by
    rw [Queued, Queued, h.fiber]
  constructor
  · simp only [h.fiber, h.submitted, hqueued]
    exact hw.claim
  · rw [hqueued, h.timeCondition, h.notified]
    exact hw.queued
  · rw [h.notified, h.timeCondition]
    exact hw.notified
  · rw [h.timed, h.timeCondition]
    exact fun huntimed => ⟨h.timer (hw.untimed huntimed).1, (hw.untimed huntimed).2⟩
  · rw [h.returned, h.timeCondition, h.fiber]
    exact hw.returned

omit [DecidableEq F] in
theorem cancel_fiber (w : Wait F) : (cancel w).fiber = w.fiber := by
  rw [cancel]
  split
  · rfl
  · rfl

omit [DecidableEq F] in
theorem sameClaim_cancel (w : Wait F) : SameClaim w (cancel w) := by
  rw [cancel]
  split
  · exact ⟨rfl, rfl, rfl, rfl, rfl, rfl, fun _ => rfl⟩
  · exact ⟨rfl, rfl, rfl, rfl, rfl, rfl, id⟩

omit [DecidableEq F] in
theorem waits_modify_eq_none (change : Wait F → Wait F) {j : Nat} (h : s.waits j = none) :
    (s.modify k change).waits j = none := by
  by_cases hj : j = k
  · subst hj
    rw [waits_modify_self, h]
    rfl
  · rw [waits_modify_of_ne change hj]
    exact h

omit [DecidableEq F] in
theorem exists_modify (change : Wait F → Wait F) (hfiber : ∀ w, (change w).fiber = w.fiber) {j : Nat}
    (h : ∃ w, s.waits j = some w ∧ w.fiber = f) :
    ∃ w, (s.modify k change).waits j = some w ∧ w.fiber = f := by
  obtain ⟨w, hw, hf⟩ := h
  by_cases hj : j = k
  · subst hj
    exact ⟨change w, by rw [waits_modify_self, hw]; rfl, (hfiber w).trans hf⟩
  · exact ⟨w, (waits_modify_of_ne change hj).trans hw, hf⟩

omit [DecidableEq F] in
theorem elim_submitted_modify (change : Wait F → Wait F)
    (hsame : ∀ w, s.waits k = some w → (change w).submitted = w.submitted) (j : Nat) :
    ((s.modify k change).waits j).elim 0 Wait.submitted = (s.waits j).elim 0 Wait.submitted := by
  by_cases hj : j = k
  · subst hj
    rw [waits_modify_self]
    cases hw : s.waits j with
    | none => rfl
    | some w => exact hsame w hw
  · rw [waits_modify_of_ne change hj]

theorem Inv.modify (h : s.Inv) {change : Wait F → Wait F}
    (hfiber : ∀ w, (change w).fiber = w.fiber)
    (hsame : ∀ w, s.waits k = some w → SameClaim w (change w)) : (s.modify k change).Inv where
  fresh := fun j hj => waits_modify_eq_none change (h.fresh j hj)
  fiber := fun g j hg => exists_modify change hfiber (h.fiber g j hg)
  nodup := h.nodup
  queued := h.queued
  pending := h.pending
  ready := by
    intro g
    have howed : (s.modify k change).owed g = s.owed g :=
      owed_congr rfl fun j _ => elim_submitted_modify change (fun w hw => (hsame w hw).submitted) j
    rw [howed]
    exact h.ready g
  waits := by
    refine forall_modify (fun w hw => ?_) fun j w _ hw => (h.waits j w hw).congr Iff.rfl rfl id
    exact ((h.waits k w hw).sameClaim (hsame w hw)).congr Iff.rfl rfl id
  leaving := by
    intro g j result w hg hw
    refine forall_modify (P := fun j w => s.pc g = .leaving j result → result = !w.timeCondition)
      ?_ (fun j w _ hw hg => h.leaving g j result w hg hw) j w hw hg
    intro w hw hg
    rw [(hsame w hw).timeCondition]
    exact h.leaving g k result w hg hw

theorem Inv.setMutex (h : s.Inv) (mutex : Bool) : ({ s with mutex := mutex } : State F).Inv :=
  { h with waits := fun k w hw => (h.waits k w hw).congr Iff.rfl rfl id }

end Effects

section Steps

theorem Inv.present (h : s.Inv) (hticket : (s.pc f).ticket = some k) :
    ∃ w, s.waits k = some w ∧ w.fiber = f ∧ s.WaitInv k w := by
  obtain ⟨w, hw, hfiber⟩ := h.fiber f k hticket
  exact ⟨w, hw, hfiber, h.waits k w hw⟩

theorem Inv.ticket_unique (h : s.Inv) {g : F} (hf : (s.pc f).ticket = some k)
    (hg : (s.pc g).ticket = some k) : f = g := by
  obtain ⟨w, hw, hwf⟩ := h.fiber f k hf
  obtain ⟨v, hv, hvg⟩ := h.fiber g k hg
  cases hw.symm.trans hv
  exact hwf.symm.trans hvg

theorem Inv.not_mem_waitQueue (h : s.Inv) (hwaiting : (s.pc f).waiting = none) :
    f ∉ s.waitQueue := by
  intro hf
  obtain ⟨k, hk⟩ := h.queued f hf
  rw [hwaiting] at hk
  cases hk

omit [DecidableEq F] in
theorem owed_of_waiting (hwaiting : (s.pc f).waiting = some k) (hw : s.waits k = some w) :
    s.owed f = w.submitted := by
  rw [owed, hwaiting]
  change (s.waits k).elim 0 Wait.submitted = w.submitted
  rw [hw]
  rfl

/-- The scheduler takes a fiber only after its wait has turned in its claim. -/
theorem inv_resume (h : s.Inv) (hpc : s.pc f = .parked k) (hready : f ∈ s.ready) :
    ({ s with ready := s.ready.erase f }.goto f (.resumed k)).Inv := by
  have hwaiting : (s.pc f).waiting = some k := by
    rw [hpc]
    rfl
  have hticket : (Pc.resumed k).ticket = (s.pc f).ticket := by
    rw [hpc]
    rfl
  obtain ⟨w, hw, rfl, hinv⟩ := h.present hticket.symm
  have hcount : s.ready.count w.fiber = w.submitted :=
    (h.ready w.fiber).trans (owed_of_waiting hwaiting hw)
  have hpos := List.count_pos_iff.mpr hready
  have hclaim := hinv.claim
  have hdone : s.pending.count (w.fiber, some k) = 0 ∧ ¬ s.Queued k w ∧ w.submitted = 1 := by
    split at hclaim
    · omega
    · next hqueued => exact ⟨by omega, hqueued, by omega⟩
  obtain ⟨hpending, hqueued, hone⟩ := hdone
  have hout : w.fiber ∉ s.waitQueue := fun hmem => hqueued ⟨hmem, hticket.symm⟩
  refine
    { fresh := h.fresh
      fiber := fun g j hg => h.fiber g j (ticket_goto hticket g ▸ hg)
      nodup := h.nodup
      queued := ?_
      pending := ?_
      ready := ?_
      waits := ?_
      leaving := ?_ }
  · intro g hg
    have hgf : g ≠ w.fiber := fun heq => hout (heq ▸ hg)
    rw [pc_goto_of_ne hgf]
    exact h.queued g hg
  · intro p hp
    obtain ⟨j, hj, hwait⟩ := h.pending p hp
    have hpf : p.1 ≠ w.fiber := by
      intro heq
      rw [heq, hwaiting] at hwait
      cases hwait
      have hmem : (w.fiber, some k) ∈ s.pending := by
        rwa [← heq, ← hj]
      exact Nat.ne_of_gt (List.count_pos_iff.mpr hmem) hpending
    rw [pc_goto_of_ne hpf]
    exact ⟨j, hj, hwait⟩
  · intro g
    by_cases hg : g = w.fiber
    · subst hg
      have howed : ({ s with ready := s.ready.erase w.fiber }.goto w.fiber (.resumed k)).owed w.fiber
          = 0 := by
        rw [owed, pc_goto_self]
        rfl
      rw [howed]
      change (s.ready.erase w.fiber).count w.fiber = 0
      rw [List.count_erase_self, hcount, hone]
    · have howed : ({ s with ready := s.ready.erase w.fiber }.goto w.fiber (.resumed k)).owed g
          = s.owed g := owed_congr (by rw [pc_goto_of_ne hg]) fun _ _ => rfl
      rw [howed]
      change (s.ready.erase w.fiber).count g = s.owed g
      rw [List.count_erase_of_ne hg]
      exact h.ready g
  · intro j v hv
    exact (h.waits j v hv).congr (queued_goto hticket) rfl (ticket_goto hticket _ ▸ ·)
  · intro g j result v hg
    by_cases hgf : g = w.fiber
    · subst hgf
      rw [pc_goto_self] at hg
      cases hg
    · rw [pc_goto_of_ne hgf] at hg
      exact h.leaving g j result v hg

theorem inv_leave (h : s.Inv) {result : Bool} (hticket : (s.pc f).ticket = some k)
    (hwaiting : (s.pc f).waiting = none)
    (hresult : ∀ w, s.waits k = some w → result = !w.timeCondition) :
    ((s.goto f .idle).modify k fun w => { w with alive := false, returned := some result }).Inv := by
  have hout : f ∉ s.waitQueue := h.not_mem_waitQueue hwaiting
  have hidle : ∀ g j, ((s.goto f .idle).pc g).ticket = some j → g ≠ f ∧ (s.pc g).ticket = some j := by
    intro g j hg
    by_cases hgf : g = f
    · subst hgf
      rw [pc_goto_self] at hg
      cases hg
    · rw [pc_goto_of_ne hgf] at hg
      exact ⟨hgf, hg⟩
  have hqueued : ∀ j v, (s.goto f .idle).Queued j v ↔ s.Queued j v := by
    intro j v
    constructor
    · rintro ⟨hmem, hv⟩
      exact ⟨hmem, (hidle v.fiber j hv).2⟩
    · rintro ⟨hmem, hv⟩
      have hne : v.fiber ≠ f := fun heq => hout (heq ▸ hmem)
      exact ⟨hmem, by rwa [pc_goto_of_ne hne]⟩
  have hwait : ∀ g, ((s.goto f .idle).pc g).waiting = (s.pc g).waiting :=
    waiting_goto hwaiting.symm
  have hfiber : ∀ w : Wait F, ({ w with alive := false, returned := some result } : Wait F).fiber
      = w.fiber := fun _ => rfl
  have hsubmitted : ∀ w, s.waits k = some w →
      ({ w with alive := false, returned := some result } : Wait F).submitted = w.submitted :=
    fun _ _ => rfl
  refine
    { fresh := fun j hj => waits_modify_eq_none _ (h.fresh j hj)
      fiber := fun g j hg => exists_modify _ hfiber (h.fiber g j (hidle g j hg).2)
      nodup := h.nodup
      queued := fun g hg => hwait g ▸ h.queued g hg
      pending := fun p hp => hwait p.1 ▸ h.pending p hp
      ready := ?_
      waits := ?_
      leaving := ?_ }
  · intro g
    have howed : ((s.goto f .idle).modify k fun w =>
        { w with alive := false, returned := some result }).owed g = s.owed g :=
      owed_congr (hwait g) fun j _ => elim_submitted_modify _ hsubmitted j
    rw [howed]
    exact h.ready g
  · refine forall_modify (fun w hw => ?_) fun j v hj hv => ?_
    · have hinv := (h.waits k w hw).congr (t := s.goto f .idle) (hqueued k w) rfl fun hk =>
        (hidle w.fiber k hk).2
      have hown : w.fiber = f := by
        obtain ⟨v, hv, hvf⟩ := h.fiber f k hticket
        cases hw.symm.trans hv
        exact hvf
      refine ⟨hinv.claim, hinv.queued, hinv.notified, hinv.untimed, ?_⟩
      rintro _ ⟨rfl⟩
      refine ⟨hresult w hw, ?_⟩
      intro hk
      exact (hidle w.fiber k hk).1 hown
    · exact (h.waits j v hv).congr (hqueued j v) rfl fun hk => (hidle v.fiber j hk).2
  · intro g j b v hg hv
    have hgf : g ≠ f := by
      rintro rfl
      have hidle : Pc.idle = .leaving j b := (pc_goto_self (s := s)).symm.trans hg
      cases hidle
    have hg' : s.pc g = .leaving j b := (pc_goto_of_ne hgf).symm.trans hg
    refine forall_modify (P := fun j v => s.pc g = .leaving j b → b = !v.timeCondition) ?_ ?_ j v hv hg'
    · exact fun v hv hg => h.leaving g k b v hg hv
    · exact fun j v _ hv hg => h.leaving g j b v hg hv

/-- A fiber that is still in its wait has not returned from it. -/
theorem WaitInv.returned_eq_none (hinv : s.WaitInv k w) (hticket : (s.pc w.fiber).ticket = some k) :
    w.returned = none := by
  cases hreturned : w.returned with
  | none => rfl
  | some result => exact absurd hticket (hinv.returned result hreturned).2

/-- The claim of one wait leaves the queue, or is turned in; the rest is as it was. -/
theorem Inv.moveClaim (h : s.Inv) (change : Wait F → Wait F) {queue ready : List F}
    {pending : List (F × Option Nat)} (hwaiting : (s.pc w.fiber).waiting = some k)
    (hw : s.waits k = some w) (hfiber : ∀ w, (change w).fiber = w.fiber)
    (hreturned : (change w).returned = w.returned)
    (hnotified : (change w).notified = true → (change w).timeCondition = false)
    (huntimed : (change w).timed = false → (change w).timer = .gone ∧ (change w).timeCondition = false)
    (hqueue : queue = s.waitQueue.erase w.fiber)
    (hclaim : (change w).submitted + pending.count (w.fiber, some k) = 1)
    (hsub : ∀ p ∈ pending, p ∈ s.pending ∨ p = (w.fiber, some k))
    (hpending : ∀ g j, j ≠ k → pending.count (g, some j) = s.pending.count (g, some j))
    (hreadySelf : ready.count w.fiber = (change w).submitted)
    (hready : ∀ g, g ≠ w.fiber → ready.count g = s.ready.count g) :
    ({ s.modify k change with waitQueue := queue, pending := pending, ready := ready } :
      State F).Inv := by
  subst hqueue
  have hticket : (s.pc w.fiber).ticket = some k := Pc.ticket_of_waiting hwaiting
  have hout : w.fiber ∉ s.waitQueue.erase w.fiber := h.nodup.not_mem_erase
  have hother : ∀ j v, j ≠ k → s.waits j = some v →
      (v.fiber ∈ s.waitQueue.erase w.fiber ∧ (s.pc v.fiber).ticket = some j ↔ s.Queued j v) := by
    intro j v hj hv
    by_cases hfib : v.fiber = w.fiber
    · have hne : (s.pc v.fiber).ticket ≠ some j := by
        rw [hfib, hticket]
        exact fun heq => hj (Option.some.inj heq).symm
      exact iff_of_false (fun hq => hne hq.2) fun hq => hne hq.2
    · rw [Queued, List.mem_erase_of_ne hfib]
  refine
    { fresh := fun j hj => waits_modify_eq_none change (h.fresh j hj)
      fiber := fun g j hg => exists_modify change hfiber (h.fiber g j hg)
      nodup := h.nodup.erase w.fiber
      queued := fun g hg => h.queued g (List.mem_of_mem_erase hg)
      pending := ?_
      ready := ?_
      waits := ?_
      leaving := ?_ }
  · intro p hp
    rcases hsub p hp with hold | rfl
    · exact h.pending p hold
    · exact ⟨k, rfl, hwaiting⟩
  · intro g
    by_cases hgf : g = w.fiber
    · subst hgf
      have hself : (s.modify k change).waits k = some (change w) := by
        rw [waits_modify_self, hw]
        rfl
      exact hreadySelf.trans (owed_of_waiting (s := s.modify k change) hwaiting hself).symm
    · have howed : (s.modify k change).owed g = s.owed g := by
        refine owed_congr rfl fun j hj => ?_
        have hjk : j ≠ k := by
          rintro rfl
          exact hgf (h.ticket_unique (Pc.ticket_of_waiting hj) hticket)
        rw [waits_modify_of_ne change hjk]
      exact ((hready g hgf).trans (h.ready g)).trans howed.symm
  · refine forall_modify (fun v hv => ?_) fun j v hj hv => ?_
    · cases hw.symm.trans hv
      have hnone := (h.waits k w hw).returned_eq_none hticket
      have hout' : (change w).fiber ∉ s.waitQueue.erase w.fiber := by
        rwa [hfiber]
      rw [← hfiber w] at hclaim
      refine ⟨?_, fun hq => absurd hq.1 hout', hnotified, huntimed, ?_⟩
      · rw [if_neg fun hq => hout' hq.1]
        exact hclaim
      · intro result hsome
        rw [hreturned, hnone] at hsome
        cases hsome
    · exact (h.waits j v hv).congr (hother j v hj hv) (hpending v.fiber j hj) id
  · intro g j result v hg hv
    refine forall_modify (P := fun j v => s.pc g = .leaving j result → result = !v.timeCondition)
      ?_ (fun j v _ hv hg => h.leaving g j result v hg hv) j v hv hg
    -- the fiber of this wait has not been resumed
    intro v hv hg
    have hgk : (s.pc g).ticket = some k := by
      rw [hg]
      rfl
    rw [← h.ticket_unique hgk hticket, hg] at hwaiting
    cases hwaiting

theorem count_submit_of_ne {g : F} (hg : g ≠ f) (ready : List F) :
    (ready ++ [f]).count g = ready.count g := by
  rw [List.count_append, List.count_singleton, beq_false_of_ne (Ne.symm hg)]
  rfl

theorem inv_notify (h : s.Inv) (hf : f ∈ s.waitQueue) :
    ({ s.take f with pending := s.pending ++ [(f, (s.pc f).ticket)] } : State F).Inv := by
  obtain ⟨k, hwaiting⟩ := h.queued f hf
  have hticket := Pc.ticket_of_waiting hwaiting
  obtain ⟨w, hw, rfl, hinv⟩ := h.present hticket
  have hclaim := hinv.claim
  rw [if_pos ⟨hf, hticket⟩] at hclaim
  have htake : s.take w.fiber = { s.modify k fun w => { w with notified := true } with
      waitQueue := s.waitQueue.erase w.fiber } := by
    simp only [take, hticket]
    rfl
  rw [htake, hticket]
  refine h.moveClaim (fun w => { w with notified := true }) hwaiting hw (fun _ => rfl) rfl
    (fun _ => (hinv.queued ⟨hf, hticket⟩).1) hinv.untimed rfl ?_ ?_ ?_ ?_ (fun _ _ => rfl)
  · change w.submitted + (s.pending ++ [(w.fiber, some k)]).count (w.fiber, some k) = 1
    rw [List.count_append, List.count_singleton_self]
    omega
  · intro p hp
    rcases List.mem_append.mp hp with hold | hnew
    · exact Or.inl hold
    · exact Or.inr (List.mem_singleton.mp hnew)
  · intro g j hj
    have hne : ((w.fiber, some k) : F × Option Nat) ≠ (g, some j) := by
      intro heq
      exact hj (Option.some.inj (congrArg Prod.snd heq)).symm
    rw [List.count_append, List.count_singleton, beq_false_of_ne hne]
    rfl
  · change s.ready.count w.fiber = w.submitted
    exact (h.ready w.fiber).trans (owed_of_waiting hwaiting hw)

theorem inv_submit (h : s.Inv) {p : F × Option Nat} (hp : p ∈ s.pending) :
    ({ s with pending := s.pending.erase p }.submit p.1 p.2 : State F).Inv := by
  obtain ⟨f, ticket⟩ := p
  obtain ⟨k, hticket, hwaiting⟩ := h.pending _ hp
  cases hticket
  have hticket := Pc.ticket_of_waiting hwaiting
  obtain ⟨w, hw, rfl, hinv⟩ := h.present hticket
  have hpos : 0 < s.pending.count (w.fiber, some k) := List.count_pos_iff.mpr hp
  have hclaim := hinv.claim
  have hout : w.fiber ∉ s.waitQueue := by
    intro hmem
    rw [if_pos ⟨hmem, hticket⟩] at hclaim
    omega
  rw [if_neg fun hq => hout hq.1] at hclaim
  refine h.moveClaim (fun w => { w with submitted := w.submitted + 1 }) hwaiting hw (fun _ => rfl) rfl
    hinv.notified hinv.untimed (List.erase_of_not_mem hout).symm ?_ ?_ ?_ ?_
    (fun g hg => count_submit_of_ne hg s.ready)
  · change w.submitted + 1 + (s.pending.erase (w.fiber, some k)).count (w.fiber, some k) = 1
    rw [List.count_erase_self]
    omega
  · exact fun p hp => Or.inl (List.mem_of_mem_erase hp)
  · intro g j hj
    apply List.count_erase_of_ne
    intro heq
    exact hj (Option.some.inj (congrArg Prod.snd heq))
  · change (s.ready ++ [w.fiber]).count w.fiber = w.submitted + 1
    rw [List.count_append, List.count_singleton_self, h.ready, owed_of_waiting hwaiting hw]

/-- The callback of a timer turns in a claim that is still in the queue. -/
theorem inv_callback (h : s.Inv) (hw : s.waits k = some w) (htimer : w.timer = .running)
    (hmem : w.fiber ∈ s.waitQueue) (hticket : (s.pc w.fiber).ticket = some k) :
    (s.callback k w).Inv := by
  obtain ⟨j, hwaiting⟩ := h.queued w.fiber hmem
  cases hticket.symm.trans (Pc.ticket_of_waiting hwaiting)
  have hinv := h.waits k w hw
  have hclaim := hinv.claim
  rw [if_pos ⟨hmem, hticket⟩] at hclaim
  have hcallback : s.callback k w = { s.modify k fun w =>
      { w with timeCondition := true, timer := .gone, submitted := w.submitted + 1 } with
      waitQueue := s.waitQueue.erase w.fiber, ready := s.ready ++ [w.fiber] } := by
    simp only [callback, submit, modify, Function.update_self, Function.update_idem, Option.map_map]
    rfl
  rw [hcallback]
  refine h.moveClaim
    (fun w => { w with timeCondition := true, timer := .gone, submitted := w.submitted + 1 }) hwaiting
    hw (fun _ => rfl) rfl ?_ ?_ rfl ?_ (fun p hp => Or.inl hp) (fun _ _ _ => rfl) ?_
    (fun g hg => count_submit_of_ne hg s.ready)
  · intro hnotified
    have hfresh := (hinv.queued ⟨hmem, hticket⟩).2
    exact absurd (hfresh.symm.trans hnotified) Bool.false_ne_true
  · intro huntimed
    have hgone := (hinv.untimed huntimed).1
    rw [htimer] at hgone
    cases hgone
  · change w.submitted + 1 + s.pending.count (w.fiber, some k) = 1
    omega
  · change (s.ready ++ [w.fiber]).count w.fiber = w.submitted + 1
    rw [List.count_append, List.count_singleton_self, h.ready, owed_of_waiting hwaiting hw]

section Insert

/-- The wait that `insert` sets up. -/
def newWait (f : F) (timed : Bool) : Wait F :=
  { fiber := f, timed := timed, timer := if timed then .armed else .gone, timeCondition := false,
    alive := true, notified := false, submitted := 0, returned := none }

variable {g : F} {j : Nat} {timed : Bool}

theorem pc_insert_self : (s.insert f timed).pc f = .inserted s.next := pc_goto_self

theorem pc_insert_of_ne (hg : g ≠ f) : (s.insert f timed).pc g = s.pc g := pc_goto_of_ne hg

theorem waits_insert_self : (s.insert f timed).waits s.next = some (newWait f timed) :=
  Function.update_self _ _ _

theorem waits_insert_of_ne (hj : j ≠ s.next) : (s.insert f timed).waits j = s.waits j :=
  Function.update_of_ne hj _ _

theorem Inv.ne_next (h : s.Inv) (hw : s.waits j = some w) : j ≠ s.next := by
  rintro rfl
  rw [h.fresh s.next (Nat.le_refl _)] at hw
  cases hw

theorem Inv.ticket_ne_next (h : s.Inv) (hticket : (s.pc g).ticket = some j) : j ≠ s.next := by
  obtain ⟨w, hw, -⟩ := h.fiber g j hticket
  exact h.ne_next hw

theorem owed_insert (h : s.Inv) (hidle : s.pc f = .idle) (g : F) :
    (s.insert f timed).owed g = s.owed g := by
  by_cases hgf : g = f
  · subst hgf
    simp only [owed, hidle, pc_insert_self, Pc.waiting, waits_insert_self, Option.elim_some, newWait]
  · refine owed_congr (by rw [pc_insert_of_ne hgf]) fun j hj => ?_
    rw [waits_insert_of_ne (h.ticket_ne_next (Pc.ticket_of_waiting hj))]

/-- The claim to the new wait lies in the queue. -/
theorem waitInv_newWait (h : s.Inv) (hidle : s.pc f = .idle) :
    (s.insert f timed).WaitInv s.next (newWait f timed) where
  claim := by
    have hqueued : (s.insert f timed).Queued s.next (newWait f timed) := by
      refine ⟨List.mem_insert_self, ?_⟩
      rw [newWait, pc_insert_self]
      rfl
    have hcount : s.pending.count (f, some s.next) = 0 := by
      rw [List.count_eq_zero]
      intro hp
      obtain ⟨j, hj, hwaiting⟩ := h.pending _ hp
      rw [hidle] at hwaiting
      cases hwaiting
    rw [if_pos hqueued]
    change 0 + s.pending.count (f, some s.next) + 1 = 1
    rw [hcount]
  queued := fun _ => ⟨rfl, rfl⟩
  notified := fun hnotified => by cases hnotified
  untimed := by
    intro huntimed
    have htimed : timed = false := huntimed
    subst htimed
    exact ⟨rfl, rfl⟩
  returned := fun _ hreturned => by cases hreturned

theorem WaitInv.insert (h : s.Inv) (hidle : s.pc f = .idle) (hw : s.waits j = some w) :
    (s.insert f timed).WaitInv j w := by
  have hout : f ∉ s.waitQueue := h.not_mem_waitQueue (by rw [hidle]; rfl)
  have hself : ((s.insert f timed).pc f).ticket ≠ some j := by
    rw [pc_insert_self]
    exact fun heq => h.ne_next hw (Option.some.inj heq).symm
  refine (h.waits j w hw).congr ?_ rfl ?_
  · by_cases hwf : w.fiber = f
    · exact iff_of_false (fun hq => hself (hwf ▸ hq.2)) fun hq => hout (hwf ▸ hq.1)
    · rw [Queued, Queued, pc_insert_of_ne hwf]
      exact and_congr_left' (List.mem_insert_iff.trans (or_iff_right hwf))
  · intro hticket
    by_cases hwf : w.fiber = f
    · exact absurd (hwf ▸ hticket) hself
    · rwa [pc_insert_of_ne hwf] at hticket

theorem inv_insert (h : s.Inv) (hidle : s.pc f = .idle) (timed : Bool) : (s.insert f timed).Inv := by
  refine
    { fresh := ?_
      fiber := ?_
      nodup := h.nodup.insert
      queued := ?_
      pending := ?_
      ready := fun g => (h.ready g).trans (owed_insert h hidle g).symm
      waits := ?_
      leaving := ?_ }
  · intro j hj
    have hlt : s.next < j := hj
    rw [waits_insert_of_ne (Nat.ne_of_gt hlt)]
    exact h.fresh j (Nat.le_of_lt hlt)
  · intro g j hg
    by_cases hgf : g = f
    · subst hgf
      rw [pc_insert_self] at hg
      cases hg
      exact ⟨newWait g timed, waits_insert_self, rfl⟩
    · rw [pc_insert_of_ne hgf] at hg
      rw [waits_insert_of_ne (h.ticket_ne_next hg)]
      exact h.fiber g j hg
  · intro g hg
    by_cases hgf : g = f
    · exact ⟨s.next, by rw [hgf, pc_insert_self]; rfl⟩
    · rw [pc_insert_of_ne hgf]
      exact h.queued g ((List.mem_insert_iff.mp hg).resolve_left hgf)
  · intro p hp
    obtain ⟨j, hj, hwaiting⟩ := h.pending p hp
    have hne : p.1 ≠ f := by
      intro heq
      rw [heq, hidle] at hwaiting
      cases hwaiting
    rw [pc_insert_of_ne hne]
    exact ⟨j, hj, hwaiting⟩
  · intro j w hw
    by_cases hj : j = s.next
    · subst hj
      cases waits_insert_self.symm.trans hw
      exact waitInv_newWait h hidle
    · rw [waits_insert_of_ne hj] at hw
      exact WaitInv.insert h hidle hw
  · intro g j result w hg hw
    have hgf : g ≠ f := by
      rintro rfl
      rw [pc_insert_self] at hg
      cases hg
    rw [pc_insert_of_ne hgf] at hg
    rw [waits_insert_of_ne (h.ticket_ne_next (by rw [hg]; rfl))] at hw
    exact h.leaving g j result w hg hw

end Insert

/-- A round of `notifyAll` is a `notify` together with its submission. -/
theorem inv_wake (h : s.Inv) (hf : f ∈ s.waitQueue) :
    (s.wake f).Inv ∧ (s.wake f).waitQueue = s.waitQueue.erase f := by
  obtain ⟨k, hwaiting⟩ := h.queued f hf
  have hticket := Pc.ticket_of_waiting hwaiting
  obtain ⟨w, hw, rfl, hinv⟩ := h.present hticket
  have hclaim := hinv.claim
  rw [if_pos ⟨hf, hticket⟩] at hclaim
  have hnot : (w.fiber, some k) ∉ s.pending := by
    rw [← List.count_eq_zero]
    omega
  have hpending : (s.pending ++ [(w.fiber, some k)]).erase (w.fiber, some k) = s.pending := by
    rw [List.erase_append_right _ hnot, List.erase_cons_head, List.append_nil]
  have hsame : ({ s.take w.fiber with pending := s.pending } : State F) = s.take w.fiber := by
    simp only [take, hticket]
    rfl
  have hboth := inv_submit (inv_notify h hf) (p := (w.fiber, some k)) (by simp [hticket])
  simp only [hticket, hpending, hsame] at hboth
  rw [wake, hticket]
  refine ⟨hboth, ?_⟩
  simp only [take, hticket]
  rfl

theorem inv_notifyAll {queue : List F} (h : s.Inv) (hqueue : s.waitQueue = queue) :
    (queue.foldl wake s).Inv := by
  induction queue generalizing s with
  | nil => exact h
  | cons f rest ih =>
      obtain ⟨hwake, hrest⟩ := inv_wake h (f := f) (by rw [hqueue]; exact List.mem_cons_self)
      rw [hqueue, List.erase_cons_head] at hrest
      exact ih hwake hrest

/-- What a step asks of the state before it and makes of it. -/
inductive Stepped (s : State F) : Label F → State F → Prop
  | wait {f : F} (hpc : s.pc f = .idle) : Stepped s (.wait f) (s.insert f false)
  | waitFor {f : F} (hpc : s.pc f = .idle) : Stepped s (.waitFor f) (s.insert f true)
  | yield {f : F} {k : Nat} (hpc : s.pc f = .inserted k) :
      Stepped s (.yield f) (s.goto f (.parked k))
  | resume {f : F} {k : Nat} (hready : f ∈ s.ready) (hpc : s.pc f = .parked k) :
      Stepped s (.resume f) ({ s with ready := s.ready.erase f }.goto f (.resumed k))
  | resumeElsewhere {f : F} (hready : f ∈ s.ready) (hpc : (s.pc f).waiting = none) :
      Stepped s (.resume f) { s with ready := s.ready.erase f }
  | relock {f : F} {k : Nat} (hpc : s.pc f = .resumed k) :
      Stepped s (.relock f) { (s.goto f (.relocking k)).modify k cancel with mutex := true }
  | finish {f : F} {k : Nat} (hpc : s.pc f = .relocking k) :
      Stepped s (.finish f)
        { s.goto f (.leaving k (!(s.waits k).any Wait.timeCondition)) with mutex := false }
  | leave {f : F} {k : Nat} (hpc : s.pc f = .resumed k)
      (huntimed : (s.waits k).any Wait.timed = false) :
      Stepped s (.leave f)
        ((s.goto f .idle).modify k fun w => { w with alive := false, returned := some true })
  | leaveTimed {f : F} {k : Nat} {result : Bool} (hpc : s.pc f = .leaving k result) :
      Stepped s (.leave f)
        ((s.goto f .idle).modify k fun w => { w with alive := false, returned := some result })
  | notify {f : F} (hmem : f ∈ s.waitQueue) :
      Stepped s (.notify f) { s.take f with pending := s.pending ++ [(f, (s.pc f).ticket)] }
  | submit {p : F × Option Nat} (hp : p ∈ s.pending) :
      Stepped s (.submit p) ({ s with pending := s.pending.erase p }.submit p.1 p.2)
  | notifyAll : Stepped s .notifyAll (s.waitQueue.foldl wake s)
  | expire {k : Nat} (harmed : (s.waits k).any fun w => w.timer = .armed) :
      Stepped s (.expire k) (s.modify k fun w => { w with timer := .collected })
  | onTimer {k : Nat} (hcollected : (s.waits k).any fun w => w.timer = .collected) :
      Stepped s (.onTimer k)
        (s.modify k fun w => { w with timer := if w.alive then .running else .gone })
  | callback {k : Nat} {w : Wait F} (hw : s.waits k = some w) (hrunning : w.timer = .running) :
      Stepped s (.callback k) (s.callback k w)

theorem stepped_of_step {l : Label F} (hstep : s.step l = some t) : Stepped s l t := by
  cases l with
  | wait f =>
      simp only [step] at hstep
      split at hstep
      · next henabled =>
        cases hstep
        exact .wait henabled.1
      · cases hstep
  | waitFor f =>
      simp only [step] at hstep
      split at hstep
      · next henabled =>
        cases hstep
        exact .waitFor henabled.1
      · cases hstep
  | yield f | finish f =>
      simp only [step] at hstep
      split at hstep
      · next hpc =>
        cases hstep
        constructor
        exact hpc
      · cases hstep
  | resume f =>
      simp only [step] at hstep
      split at hstep
      · next hready =>
        cases hpc : s.pc f with
        | parked k =>
            simp only [hpc, Option.some.injEq] at hstep
            subst hstep
            exact .resume hready hpc
        | inserted k => simp [hpc] at hstep
        | idle | resumed k | relocking k | leaving k result =>
            simp only [hpc, Option.some.injEq] at hstep
            subst hstep
            exact .resumeElsewhere hready (congrArg Pc.waiting hpc)
      · cases hstep
  | relock f =>
      simp only [step] at hstep
      split at hstep
      · next hpc =>
        split at hstep
        · cases hstep
          exact .relock hpc
        · cases hstep
      · cases hstep
  | leave f =>
      simp only [step] at hstep
      split at hstep
      · next hpc =>
        split at hstep
        · cases hstep
        · next huntimed =>
          cases hstep
          exact .leave hpc (eq_false_of_ne_true huntimed)
      · next hpc =>
        cases hstep
        exact .leaveTimed hpc
      · cases hstep
  | notify f =>
      simp only [step] at hstep
      split at hstep
      · next henabled =>
        cases hstep
        exact .notify henabled.2
      · cases hstep
  | submit p =>
      simp only [step] at hstep
      split at hstep
      · next hp =>
        cases hstep
        exact .submit hp
      · cases hstep
  | notifyAll =>
      simp only [step] at hstep
      split at hstep
      · cases hstep
        exact .notifyAll
      · cases hstep
  | expire k =>
      simp only [step] at hstep
      split at hstep
      · next harmed =>
        cases hstep
        exact .expire harmed
      · cases hstep
  | onTimer k =>
      simp only [step] at hstep
      split at hstep
      · next hcollected =>
        cases hstep
        exact .onTimer hcollected
      · cases hstep
  | callback k =>
      simp only [step] at hstep
      split at hstep
      · next w hw =>
        split at hstep
        · next hrunning =>
          cases hstep
          exact .callback hw hrunning.1
        · cases hstep
      · cases hstep

theorem inv_step {l : Label F} (h : s.Inv) (hintime : s.InTime l) (hstep : s.Step l t) : t.Inv := by
  cases stepped_of_step hstep with
  | wait hpc => exact inv_insert h hpc false
  | waitFor hpc => exact inv_insert h hpc true
  | yield hpc =>
      exact h.goto (by rw [hpc]; rfl) (by rw [hpc]; rfl) fun _ _ _ hnew => by cases hnew
  | resume hready hpc => exact inv_resume h hpc hready
  | @resumeElsewhere f hready hpc =>
      -- what the scheduler holds is for a fiber in its wait
      have hcount : 0 < s.owed f := h.ready f ▸ List.count_pos_iff.mpr hready
      simp [owed, hpc] at hcount
  | @relock f k hpc =>
      have hmoved : (s.goto f (.relocking k)).Inv :=
        h.goto (by rw [hpc]; rfl) (by rw [hpc]; rfl) fun _ _ _ hnew => by cases hnew
      have hcancelled := hmoved.modify (k := k) cancel_fiber fun w _ => sameClaim_cancel w
      exact hcancelled.setMutex true
  | @finish f k hpc =>
      have hmoved : (s.goto f (.leaving k (!(s.waits k).any Wait.timeCondition))).Inv := by
        refine h.goto (by rw [hpc]; rfl) (by rw [hpc]; rfl) ?_
        rintro _ _ w ⟨⟩ hw
        rw [hw]
        rfl
      exact hmoved.setMutex false
  | leave hpc huntimed =>
      refine inv_leave h (by rw [hpc]; rfl) (by rw [hpc]; rfl) fun w hw => ?_
      rw [hw, Option.any_some] at huntimed
      rw [((h.waits _ w hw).untimed huntimed).2]
      rfl
  | leaveTimed hpc =>
      exact inv_leave h (by rw [hpc]; rfl) (by rw [hpc]; rfl) fun w hw => h.leaving _ _ _ w hpc hw
  | notify hmem => exact inv_notify h hmem
  | submit hp => exact inv_submit h hp
  | notifyAll => exact inv_notifyAll h rfl
  | expire harmed =>
      refine h.modify (fun _ => rfl) fun w hw => ⟨rfl, rfl, rfl, rfl, rfl, rfl, fun hgone => ?_⟩
      simp [hw, hgone] at harmed
  | onTimer hcollected =>
      refine h.modify (fun _ => rfl) fun w hw => ⟨rfl, rfl, rfl, rfl, rfl, rfl, fun hgone => ?_⟩
      simp [hw, hgone] at hcollected
  | callback hw hrunning =>
      obtain ⟨hmem, hticket⟩ := hintime _ hw
      exact inv_callback h hw hrunning hmem hticket

end Steps

/-- In every run in which callbacks come in time, each wait has its fiber submitted at most once, and
a wait that was notified does not report a timeout. -/
theorem oneWakeup_of_inTime {F : Type} [DecidableEq F] (s : State F)
    (hreach : Reachable (Guarded InTime Step) New s) : s.OneWakeup := by
  have hinv : s.Inv := by
    refine hreach.invariant (fun _ => inv_of_new) ?_
    rintro s l t h ⟨hintime, hstep⟩
    exact inv_step h hintime hstep
  exact hinv.oneWakeup

section Examples

def newCondVar : State Bool :=
  { mutex := false, waitQueue := [], ready := [], pending := [], waits := fun _ => none, next := 0,
    pc := fun _ => .idle }

theorem new_newCondVar : New newCondVar :=
  ⟨rfl, rfl, rfl, rfl, fun _ => rfl, fun _ => rfl⟩

/-- One fiber is notified and cancels its timer, the other times out. -/
def bothWays : List (Label Bool) :=
  [.waitFor false, .yield false, .waitFor true, .yield true, .notify false, .submit (false, some 0),
    .resume false, .relock false, .finish false, .leave false, .expire 1, .onTimer 1, .callback 1,
    .resume true, .relock true, .finish true, .leave true]

theorem oneWakeup_of_inTime_bothWays :
    ∃ s : State Bool, Reachable (Guarded InTime Step) New s ∧
      (s.waits 0).map Wait.returned = some (some true) ∧
        (s.waits 1).map Wait.returned = some (some false) ∧ s.OneWakeup := by
  obtain ⟨s, hrun, hvalue⟩ : ∃ s, bothWays.foldlM (guarded InTime step) newCondVar = some s ∧
      ((s.waits 0).map Wait.returned, (s.waits 1).map Wait.returned) =
        (some (some true), some (some false)) :=
    Option.map_eq_some_iff.mp (by decide)
  have hreach : Reachable (Guarded InTime Step) New s :=
    .of_run guarded_step (.start new_newCondVar) hrun
  obtain ⟨hfirst, hsecond⟩ := Prod.mk.inj hvalue
  exact ⟨s, hreach, hfirst, hsecond, oneWakeup_of_inTime s hreach⟩

/-- The timer of a wait has expired when it is notified, and its callback runs all the same. -/
def bothWake : List (Label Bool) :=
  [.waitFor false, .yield false, .expire 0, .notify false, .submit (false, some 0), .onTimer 0,
    .callback 0]

theorem not_oneWakeup_expired : ∃ s : State Bool, Reachable Step New s ∧ ¬ s.OneWakeup := by
  obtain ⟨s, hrun, hvalue⟩ : ∃ s, bothWake.foldlM step newCondVar = some s ∧
      (s.waits 0).map Wait.submitted = some 2 :=
    Option.map_eq_some_iff.mp (by decide)
  obtain ⟨w, hw, hsubmitted⟩ := Option.map_eq_some_iff.mp hvalue
  refine ⟨s, .of_run (fun _ _ _ hstep => hstep) (.start new_newCondVar) hrun, ?_⟩
  intro hone
  have honce := hone.once 0 w hw
  omega

end Examples

end State

end AsyncRPC.CoCondVar
