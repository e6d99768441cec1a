import AsyncRPC.Proof.ChannelQueue
import AsyncRPC.Proof.CoCondVarSteps

/-!
# Who looks for a message

While a fiber waits for a message, each `push` takes one out of the queue of `popCv_`. A fiber that was
taken out comes back to look at the messages, unless the callback of its timer tells it that its time
is up.
-/

namespace AsyncRPC

open Channel (Op Side)
open CoCondVar.State (Remembers remembers_leave)
open Transition

namespace ChannelQueue

variable {F M : Type} {s t r : State F M} {f g : F} {pc : Pc F M} {side : Side}
  {l : CoCondVar.Label F}

/-- The wait that a fiber is in, on one of the two. -/
def Pc.ticketOn (side : Side) : Pc F M → Option Nat
  | .waiting op k | .returning op k _ => if op.waitsOn = side then some k else none
  | _ => none

/-- The wait for a message that a fiber is in or has just left. -/
def Pc.visit : Pc F M → Option Nat
  | .waiting op k | .returning op k _ | .woken op k =>
      if op.waitsOn = .popCv then some k else none
  | _ => none

theorem other_ne (side : Side) : other side ≠ side := by
  cases side
  · exact Side.noConfusion
  · exact Side.noConfusion

namespace State

structure LinkedAt (s : State F M) (f : F) : Prop where
  ticket : ∀ side, ((s.cv side).pc f).ticket = (s.pc f).ticketOn side
  leaving : ∀ op k result, s.pc f = .returning op k result →
    (s.cv op.waitsOn).pc f = .leaving k result

/-- Each fiber is in the wait that its call says. -/
structure Linked [DecidableEq F] (s : State F M) : Prop where
  cv : ∀ side, (s.cv side).Inv
  fiber : ∀ f, s.LinkedAt f

/-- The fiber was notified and has not looked at the messages since. -/
def Due (s : State F M) (f : F) : Prop := ∃ k, (s.pc f).visit = some k ∧ s.notified k = true

theorem setCv_self (cv : CoCondVar.State F) : (s.setCv side cv).cv side = cv :=
  Function.update_self _ _ _

theorem setCv_of_ne {side' : Side} (h : side' ≠ side) (cv : CoCondVar.State F) :
    (s.setCv side cv).cv side' = s.cv side' :=
  Function.update_of_ne h _ _

section Steps

variable [DecidableEq F]

theorem linked_of_new (h : New s) : s.Linked where
  cv side := CoCondVar.State.inv_of_new (h.cv side)
  fiber f :=
    { ticket := fun side => by
        rw [(h.cv side).pc f, h.pc f]
        rfl
      leaving := fun op k result hpc => by
        rw [h.pc f] at hpc
        cases hpc }

omit [DecidableEq F] in
theorem LinkedAt.keep (h : s.LinkedAt g) (hpc : t.pc g = s.pc g)
    (hticket : ∀ side, ((t.cv side).pc g).ticket = ((s.cv side).pc g).ticket)
    (hleaving : ∀ side k result, (s.cv side).pc g = .leaving k result →
      (t.cv side).pc g = .leaving k result) : t.LinkedAt g where
  ticket side := by
    rw [hticket, hpc]
    exact h.ticket side
  leaving op k result hg := hleaving _ _ _ (h.leaving op k result (hpc.symm.trans hg))

omit [DecidableEq F] in
/-- A step of one condition variable that a fiber takes no part in. -/
theorem LinkedAt.setCv (h : s.LinkedAt g) {cv : CoCondVar.State F}
    (hticket : (cv.pc g).ticket = ((s.cv side).pc g).ticket)
    (hleaving : ∀ k result, (s.cv side).pc g = .leaving k result → cv.pc g = .leaving k result) :
    (s.setCv side cv).LinkedAt g := by
  refine h.keep rfl (fun side' => ?_) fun side' k result hg => ?_
  · by_cases hside : side' = side
    · rw [hside, setCv_self]
      exact hticket
    · rw [setCv_of_ne hside]
  · by_cases hside : side' = side
    · subst hside
      rw [setCv_self]
      exact hleaving k result hg
    · rw [setCv_of_ne hside]
      exact hg

theorem Linked.cv_setCv (h : s.Linked) {cv : CoCondVar.State F} (hcv : cv.Inv) (side' : Side) :
    ((s.setCv side cv).cv side').Inv := by
  by_cases hside : side' = side
  · rw [hside, setCv_self]
    exact hcv
  · rw [setCv_of_ne hside]
    exact h.cv side'

theorem Linked.inv_cv (h : s.Linked) (hintime : (s.cv side).InTime l) {cv : CoCondVar.State F}
    (hstep : (s.cv side).step l = some cv) : cv.Inv :=
  CoCondVar.State.inv_step (h.cv side) hintime hstep

/-- A call moves on, and stays in its wait if it is in one. -/
theorem Linked.goto (h : s.Linked) (hcv : t.cv = s.cv) (hpc : t.pc = (s.goto f pc).pc)
    (hticket : ∀ side, pc.ticketOn side = (s.pc f).ticketOn side)
    (hreturning : ∀ op k result, pc ≠ .returning op k result) : t.Linked where
  cv side := hcv ▸ h.cv side
  fiber g := by
    by_cases hg : g = f
    · subst hg
      have hself : t.pc g = pc := hpc ▸ pc_goto_self
      refine ⟨fun side => ?_, fun op k result hpc => ?_⟩
      · rw [hcv, hself, hticket]
        exact (h.fiber g).ticket side
      · exact absurd (hself.symm.trans hpc) (hreturning op k result)
    · have hother : t.pc g = s.pc g := hpc ▸ pc_goto_of_ne hg
      exact (h.fiber g).keep hother (fun _ => by rw [hcv]) fun _ _ _ hleaving => by rwa [hcv]

/-- A call moves on with a step of one condition variable. -/
theorem Linked.move (h : s.Linked) (hintime : (s.cv side).InTime l) {cv : CoCondVar.State F}
    (hstep : (s.cv side).step l = some cv) (hcv : t.cv = (s.setCv side cv).cv)
    (hpc : t.pc = (s.goto f pc).pc) (hticket : (cv.pc f).ticket = pc.ticketOn side)
    (hsame : pc.ticketOn (other side) = (s.pc f).ticketOn (other side))
    (hreturning : ∀ op k result, pc = .returning op k result →
      op.waitsOn = side ∧ cv.pc f = .leaving k result)
    (hothers : ∀ g, g ≠ f → (cv.pc g).ticket = ((s.cv side).pc g).ticket ∧
      ∀ k result, (s.cv side).pc g = .leaving k result → cv.pc g = .leaving k result) :
    t.Linked where
  cv side' := hcv ▸ h.cv_setCv (h.inv_cv hintime hstep) side'
  fiber g := by
    by_cases hg : g = f
    · subst hg
      have hself : t.pc g = pc := hpc ▸ pc_goto_self
      refine ⟨fun side' => ?_, fun op k result hpc => ?_⟩
      · rw [hcv, hself]
        by_cases hside : side' = side
        · rw [hside, setCv_self]
          exact hticket
        · have hother : side' = other side := by
            cases side' <;> cases side <;> first | rfl | exact absurd rfl hside
          rw [setCv_of_ne hside, hother, hsame]
          exact (h.fiber g).ticket _
      · obtain ⟨rfl, hleaving⟩ := hreturning op k result (hself.symm.trans hpc)
        rw [hcv, setCv_self]
        exact hleaving
    · have hother : t.pc g = s.pc g := hpc ▸ pc_goto_of_ne hg
      obtain ⟨hsameTicket, hleaving⟩ := hothers g hg
      exact ((h.fiber g).setCv hsameTicket hleaving).keep hother (fun _ => by rw [hcv])
        fun _ _ _ hl => by rwa [hcv]

/-- A step of one condition variable by itself. -/
theorem Linked.setCv (h : s.Linked) (hintime : (s.cv side).InTime l) {cv : CoCondVar.State F}
    (hstep : (s.cv side).step l = some cv)
    (hothers : ∀ g, (cv.pc g).ticket = ((s.cv side).pc g).ticket ∧
      ∀ k result, (s.cv side).pc g = .leaving k result → cv.pc g = .leaving k result) :
    (s.setCv side cv).Linked where
  cv := h.cv_setCv (h.inv_cv hintime hstep)
  fiber g := (h.fiber g).setCv (hothers g).1 (hothers g).2

theorem Linked.setCv_of_pc (h : s.Linked) (hintime : (s.cv side).InTime l) {cv : CoCondVar.State F}
    (hstep : (s.cv side).step l = some cv) (hsame : cv.pc = (s.cv side).pc) :
    (s.setCv side cv).Linked := by
  refine h.setCv hintime hstep fun g => ?_
  rw [hsame]
  exact ⟨rfl, fun _ _ => id⟩

/-- Only the fibers in a wait on a condition variable are resumed by it. -/
theorem Linked.resume_eq (h : s.Linked) (hstep : s.resume f side = some t) :
    s.stepCv side (.resume f) = some t := by
  unfold resume at hstep
  split at hstep
  · next k hparked =>
    split at hstep
    · next hready =>
      have hother := (h.fiber f).ticket (other side)
      rw [hparked] at hother
      have hnone : ((s.cv side).pc f).ticket = none := by
        rw [(h.fiber f).ticket side]
        cases hpc : s.pc f with
        | waiting op j | returning op j result =>
            rw [hpc] at hother
            by_cases hside : op.waitsOn = side
            · rw [Pc.ticketOn, if_neg (hside ▸ (other_ne side).symm)] at hother
              cases hother
            · exact if_neg hside
        | _ => rfl
      have howed : (s.cv side).owed f = 0 := by
        cases hpc : (s.cv side).pc f with
        | idle | resumed j | relocking j | leaving j result =>
            rw [CoCondVar.State.owed, hpc]
            rfl
        | inserted j | parked j =>
            rw [hpc] at hnone
            cases hnone
      have hpos := List.count_pos_iff.mpr hready
      rw [(h.cv side).ready f, howed] at hpos
      exact absurd hpos (Nat.lt_irrefl 0)
    · cases hstep
  · exact hstep

theorem Linked.beginWait (h : s.Linked) {op : Op M} (hstep : s.beginWait f op = some t)
    (hnone : ∀ side, (s.pc f).ticketOn side = none) : t.Linked := by
  obtain ⟨r, hwait, hstep⟩ := Option.bind_eq_some_iff.mp hstep
  obtain ⟨cv, hcv, rfl⟩ := Option.map_eq_some_iff.mp hwait
  cases hstep
  obtain ⟨-, hticket, hothers⟩ := CoCondVar.State.insert_spec hcv
  refine h.move ?_ hcv rfl rfl ?_ ?_ ?_ fun g hg => ?_
  · cases op.timed
    · trivial
    · trivial
  · rw [hticket]
    exact (if_pos rfl).symm
  · rw [hnone]
    exact if_neg (other_ne _).symm
  · intro op' k result hpc
    cases hpc
  · rw [hothers g hg]
    exact ⟨rfl, fun _ _ => id⟩

theorem linked_test (h : s.Linked) {op : Op M} (hnone : ∀ side, (s.pc f).ticketOn side = none)
    (hstep : s.test f op = some t) : t.Linked := by
  unfold test at hstep
  split at hstep
  · cases hstep
    exact h.goto rfl rfl (fun side => (hnone side).symm) fun _ _ _ hpc => by cases hpc
  · cases op with
    | push value =>
        dsimp only at hstep
        split at hstep
        · exact h.beginWait hstep hnone
        · cases hstep
          exact h.goto rfl rfl (fun side => (hnone side).symm) fun _ _ _ hpc => by cases hpc
    | close =>
        cases hstep
        exact h.goto rfl rfl (fun side => (hnone side).symm) fun _ _ _ hpc => by cases hpc
    | _ =>
        dsimp only at hstep
        split at hstep
        · exact h.beginWait hstep hnone
        · cases hstep
          exact h.goto rfl rfl (fun side => (hnone side).symm) fun _ _ _ hpc => by cases hpc

/-- A step of a condition variable that is one of its own, or of a fiber on its way through a wait. -/
theorem Linked.calm (h : s.Linked) (hintime : (s.cv side).InTime l)
    (hcalm : CoCondVar.State.calm l = true) {cv : CoCondVar.State F}
    (hcv : (s.cv side).step l = some cv) : (s.setCv side cv).Linked := by
  have hkept := CoCondVar.State.calm_step hcalm hcv
  exact h.setCv hintime hcv fun g => ⟨hkept.ticket g, hkept.leaving g⟩

omit [DecidableEq F] in
theorem calm_of_ofItself (hself : ofItself l = true) : CoCondVar.State.calm l = true := by
  cases l <;> first | rfl | cases hself

theorem linked_step (h : s.Linked) {l : Label F M} (hintime : s.InTime l) (hstep : s.step l = some t) :
    t.Linked := by
  cases stepped_of_step hstep with
  | call hpc => exact h.goto rfl rfl (fun _ => by rw [hpc]; rfl) fun _ _ _ hpc => by cases hpc
  | lock hpc => exact h.goto rfl rfl (fun _ => by rw [hpc]; rfl) fun _ _ _ hpc => by cases hpc
  | test hpc htest =>
      rcases hpc with hpc | ⟨k, hpc⟩
      · exact linked_test h (fun _ => by rw [hpc]; rfl) htest
      · exact linked_test h (fun _ => by rw [hpc]; rfl) htest
  | cv hself hcv => exact h.calm hintime (calm_of_ofItself hself) hcv
  | resume hresume =>
      obtain ⟨cv, hcv, rfl⟩ := Option.map_eq_some_iff.mp (h.resume_eq hresume)
      exact h.calm (by trivial) rfl hcv
  | retake hpc hcv =>
      obtain ⟨hnone, hothers, -⟩ := CoCondVar.State.leave_spec hcv
      refine h.move (by trivial) hcv rfl rfl hnone ?_ ?_ fun g hg => ?_
      · rw [hpc]
        exact (if_neg (other_ne _).symm).symm
      · intro _ _ _ hpc
        cases hpc
      · rw [hothers g hg]
        exact ⟨rfl, fun _ _ => id⟩
  | @finish f op k cv hpc hcv =>
      have hkept := CoCondVar.State.calm_step rfl hcv
      obtain ⟨k', hticket, hleaving⟩ := CoCondVar.State.finish_spec hcv
      have hk := hticket.symm.trans ((h.fiber f).ticket op.waitsOn)
      rw [hpc, Pc.ticketOn, if_pos rfl] at hk
      cases hk
      refine h.move (by trivial) hcv rfl rfl ?_ ?_ ?_ fun g hg => ⟨hkept.ticket g, hkept.leaving g⟩
      · rw [hleaving]
        exact (if_pos rfl).symm
      · rw [hpc]
        rfl
      · rintro _ _ _ ⟨⟩
        exact ⟨rfl, hleaving⟩
  | @leave f op k result cv hpc hcv =>
      obtain ⟨hnone, hothers, -⟩ := CoCondVar.State.leave_spec hcv
      refine h.move (by trivial) hcv rfl rfl ?_ ?_ ?_ fun g hg => ?_
      · rw [hnone]
        cases result <;> rfl
      · rw [hpc]
        cases result
        · exact (if_neg (other_ne _).symm).symm
        · exact (if_neg (other_ne _).symm).symm
      · intro _ _ _ hpc
        cases result <;> cases hpc
      · rw [hothers g hg]
        exact ⟨rfl, fun _ _ => id⟩
  | pass hpc => exact h.goto rfl rfl (fun _ => by rw [hpc]; rfl) fun _ _ _ hpc => by cases hpc
  | @notify f g result p cv hpc hcv =>
      obtain ⟨-, hsame, -⟩ := CoCondVar.State.notify_spec hcv
      have hnotified : (s.setCv result.notifies cv).Linked := h.setCv_of_pc (by trivial) hcv hsame
      exact hnotified.goto rfl rfl (fun side => (congrArg (Pc.ticketOn side) hpc).symm)
        fun _ _ _ hpc => by cases hpc
  | submit hpc hcv =>
      exact (h.calm (by trivial) rfl hcv).goto rfl rfl
        (fun side => (congrArg (Pc.ticketOn side) hpc).symm) fun _ _ _ hpc => by cases hpc
  | notifyPushers hpc hcv =>
      have hnotified := h.setCv_of_pc (by trivial) hcv (CoCondVar.State.pc_notifyAll hcv)
      exact hnotified.goto rfl rfl (fun side => (congrArg (Pc.ticketOn side) hpc).symm)
        fun _ _ _ hpc => by cases hpc
  | notifyPoppers hpc hcv =>
      have hnotified := h.setCv_of_pc (by trivial) hcv (CoCondVar.State.pc_notifyAll hcv)
      exact hnotified.goto rfl rfl (fun side => (congrArg (Pc.ticketOn side) hpc).symm)
        fun _ _ _ hpc => by cases hpc
  | swap hpc => exact h.goto rfl rfl (fun _ => by rw [hpc]; rfl) fun _ _ _ hpc => by cases hpc
  | unlock hpc => exact h.goto rfl rfl (fun _ => by rw [hpc]; rfl) fun _ _ _ hpc => by cases hpc

/-- Every message has a notified fiber of its own, as long as a fiber waits for one. -/
def Account (s : State F M) : Prop :=
  s.isClosed = false → s.msgQueue ≠ [] → (s.cv .popCv).waitQueue ≠ [] →
    ∃ fibers : List F, fibers.Nodup ∧ (∀ f ∈ fibers, s.Due f) ∧
      s.msgQueue.length ≤ fibers.length + s.announced

/-- A fiber that was notified in time is not told that its time is up. -/
theorem Linked.onTime (h : s.Linked) {k : Nat} (hnotified : s.notified k = true) :
    ((s.cv .popCv).waits k).any CoCondVar.Wait.timeCondition = false := by
  rw [notified] at hnotified
  cases hw : (s.cv .popCv).waits k with
  | none => rfl
  | some w =>
      rw [hw] at hnotified
      exact (((h.cv .popCv).waits k w hw).notified hnotified)

theorem Linked.examines (h : s.Linked) (hdue : s.Due f) : s.Examines f := by
  obtain ⟨k, hvisit, hnotified⟩ := hdue
  unfold Examines
  cases hpc : s.pc f with
  | waiting op j =>
      rw [hpc] at hvisit
      obtain ⟨hside, hk⟩ := Option.ite_none_right_eq_some.mp hvisit
      cases hk
      exact ⟨hside, hnotified, h.onTime hnotified⟩
  | returning op j result =>
      rw [hpc] at hvisit
      obtain ⟨hside, hk⟩ := Option.ite_none_right_eq_some.mp hvisit
      obtain rfl : j = k := Option.some.inj hk
      refine ⟨hside, hnotified, ?_⟩
      have hleaving := (h.fiber f).leaving op j result hpc
      rw [hside] at hleaving
      obtain ⟨w, hw, -⟩ := (h.cv .popCv).fiber f j (by rw [hleaving]; rfl)
      have honTime := h.onTime hnotified
      rw [hw] at honTime
      rw [(h.cv .popCv).leaving f j result w hleaving hw]
      exact congrArg not honTime
  | woken op j =>
      rw [hpc] at hvisit
      obtain ⟨hside, hk⟩ := Option.ite_none_right_eq_some.mp hvisit
      cases hk
      exact ⟨hside, hnotified⟩
  | _ =>
      rw [hpc] at hvisit
      cases hvisit

theorem Linked.notStranded (h : s.Linked) (haccount : s.Account) : s.NotStranded := by
  intro hopen hqueue hwaiting
  obtain ⟨fibers, hnodup, hdue, hlength⟩ := haccount hopen hqueue hwaiting
  exact ⟨fibers, hnodup, fun f hf => h.examines (hdue f hf), hlength⟩

omit [DecidableEq F] in
theorem account_of_empty (hqueue : s.msgQueue = []) : s.Account :=
  fun _ hne => absurd hqueue hne

omit [DecidableEq F] in
theorem account_of_closed (hclosed : s.isClosed = true) : s.Account := by
  intro hopen
  rw [hclosed] at hopen
  cases hopen

omit [DecidableEq F] in
/-- Nobody enters the wait for a message, and whoever is to look at the messages still is. -/
theorem Account.keep (h : s.Account) (hclosed : t.isClosed = s.isClosed)
    (hqueue : t.msgQueue = s.msgQueue)
    (hwaiting : (t.cv .popCv).waitQueue ⊆ (s.cv .popCv).waitQueue)
    (hdue : ∀ f, s.Due f → t.Due f) (hannounced : s.announced ≤ t.announced) : t.Account := by
  intro hopen hne hwait
  obtain ⟨fibers, hnodup, hfibers, hlength⟩ := h (hclosed ▸ hopen) (hqueue ▸ hne)
    fun hnil => hwait (List.subset_nil.mp (hnil ▸ hwaiting))
  refine ⟨fibers, hnodup, fun f hf => hdue f (hfibers f hf), ?_⟩
  rw [hqueue]
  omega

omit [DecidableEq F] in
/-- A call that has a notification to make makes it before it gives up `mutex_`. -/
theorem announced_le (h : s.Inv) (hpc : ∀ g, g ≠ f → t.pc g = s.pc g)
    (hself : ∀ value, s.pc f ≠ .notifying (.pushed value))
    (hmutex : t.mutex = s.mutex ∨ (s.pc f).holds = true ∨ s.mutex = none) :
    s.announced ≤ t.announced := by
  unfold announced
  cases hs : s.mutex with
  | none => exact Nat.zero_le _
  | some g =>
      dsimp only
      split
      · next value hg =>
        have hgf : g ≠ f := fun heq => hself value (heq ▸ hg)
        have hsame : t.mutex = some g := by
          rcases hmutex with hmutex | hholds | hnone
          · rw [hmutex, hs]
          · rw [h.holder f hholds] at hs
            exact absurd (Option.some.inj hs).symm hgf
          · rw [hnone] at hs
            cases hs
        rw [hsame]
        dsimp only
        rw [hpc g hgf, hg]
      · exact Nat.zero_le _

omit [DecidableEq F] in
theorem Due.keep (h : s.Due g) (hpc : (t.pc g).visit = (s.pc g).visit)
    (hnotified : ∀ k, s.notified k = true → t.notified k = true) : t.Due g := by
  obtain ⟨k, hvisit, hk⟩ := h
  exact ⟨k, hpc.trans hvisit, hnotified k hk⟩

omit [DecidableEq F] in
theorem not_due (hvisit : (s.pc f).visit = none) : ¬ s.Due f := by
  rintro ⟨k, hk, -⟩
  rw [hvisit] at hk
  cases hk

/-- A call moves on, and is still to look at the messages if it was. -/
theorem Account.move (h : s.Account) (hinv : s.Inv) (hpc : t.pc = (s.goto f pc).pc)
    (hself : ∀ value, s.pc f ≠ .notifying (.pushed value))
    (hmutex : t.mutex = s.mutex ∨ (s.pc f).holds = true ∨ s.mutex = none)
    (hclosed : t.isClosed = s.isClosed) (hqueue : t.msgQueue = s.msgQueue)
    (hcv : Remembers (s.cv .popCv) (t.cv .popCv))
    (hvisit : s.Due f → pc.visit = (s.pc f).visit) : t.Account := by
  have hothers : ∀ g, g ≠ f → t.pc g = s.pc g := fun g hg => hpc ▸ pc_goto_of_ne hg
  refine h.keep hclosed hqueue hcv.waitQueue (fun g hg => ?_)
    (announced_le hinv hothers hself hmutex)
  by_cases hgf : g = f
  · subst hgf
    refine hg.keep ?_ hcv.notified
    rw [hpc, pc_goto_self]
    exact hvisit hg
  · exact hg.keep (congrArg Pc.visit (hothers g hgf)) hcv.notified

omit [DecidableEq F] in
/-- Of a step of one condition variable, what it means for those that wait for a message. -/
theorem popCv_setCv {cv : CoCondVar.State F} (h : side = .popCv → Remembers (s.cv side) cv) :
    Remembers (s.cv .popCv) ((s.setCv side cv).cv .popCv) := by
  cases side with
  | popCv =>
      rw [setCv_self]
      exact h rfl
  | pushCv =>
      have hsame : (s.setCv .pushCv cv).cv .popCv = s.cv .popCv :=
        setCv_of_ne (other_ne .pushCv) cv
      rw [hsame]
      exact .refl _

theorem popCv_calm (hcalm : CoCondVar.State.calm l = true) {cv : CoCondVar.State F}
    (hstep : (s.cv side).step l = some cv) :
    Remembers (s.cv .popCv) ((s.setCv side cv).cv .popCv) :=
  popCv_setCv fun _ => (CoCondVar.State.calm_step hcalm hstep).remembers

theorem Account.beginWait_push (h : s.Account) (hinv : s.Inv) {value : M}
    (hholds : (s.pc f).holds = true) (hself : ∀ value, s.pc f ≠ .notifying (.pushed value))
    (hvisit : (s.pc f).visit = none) (hstep : s.beginWait f (.push value) = some t) : t.Account := by
  obtain ⟨r, hwait, hstep⟩ := Option.bind_eq_some_iff.mp hstep
  obtain ⟨cv, -, rfl⟩ := Option.map_eq_some_iff.mp hwait
  cases hstep
  have hkept : Remembers (s.cv .popCv) ((s.setCv .pushCv cv).cv .popCv) :=
    popCv_setCv fun hside => by cases hside
  exact h.move hinv rfl hself (Or.inr (Or.inl hholds)) rfl rfl hkept
    fun hdue => absurd hdue (not_due hvisit)

omit [DecidableEq F] in
theorem announced_eq_one {value : M} (hmutex : s.mutex = some f)
    (hpc : s.pc f = .notifying (.pushed value)) : s.announced = 1 := by
  simp only [announced, hmutex, hpc]

omit [DecidableEq F] in
theorem announced_eq_zero (hmutex : s.mutex = some f)
    (hself : ∀ value, s.pc f ≠ .notifying (.pushed value)) : s.announced = 0 := by
  unfold announced
  rw [hmutex]
  dsimp only
  split
  · next value hpc => exact absurd hpc (hself value)
  · rfl

/-- `push` puts a message in, and has its notification still to make. -/
theorem Account.push (h : s.Account) (hinv : s.Inv) {value : M} (hholds : (s.pc f).holds = true)
    (hself : ∀ value, s.pc f ≠ .notifying (.pushed value)) (hvisit : (s.pc f).visit = none) :
    ({ s.goto f (.notifying (.pushed value)) with msgQueue := s.msgQueue ++ [value] } :
      State F M).Account := by
  intro hopen _ hwait
  have hmutex := hinv.holder f hholds
  have hone := announced_eq_one (s := { s.goto f (.notifying (.pushed value)) with
    msgQueue := s.msgQueue ++ [value] }) hmutex pc_goto_self
  have hzero := announced_eq_zero hmutex hself
  by_cases hempty : s.msgQueue = []
  · refine ⟨[], List.nodup_nil, fun g hg => absurd hg List.not_mem_nil, ?_⟩
    rw [hone, hempty]
    rfl
  · obtain ⟨fibers, hnodup, hfibers, hlength⟩ := h hopen hempty hwait
    refine ⟨fibers, hnodup, fun g hg => ?_, ?_⟩
    · have hgf : g ≠ f := by
        rintro rfl
        exact not_due hvisit (hfibers g hg)
      exact (hfibers g hg).keep (congrArg Pc.visit (pc_goto_of_ne hgf)) fun _ => id
    · rw [hone, List.length_append, List.length_singleton]
      omega

/-- A call takes a message out; it was one of those that were to look, or it was not. -/
theorem Account.pop (h : s.Account) (hinv : s.Inv) {value : M} {rest : List M}
    (hholds : (s.pc f).holds = true) (hself : ∀ value, s.pc f ≠ .notifying (.pushed value))
    (hqueue : s.msgQueue = value :: rest) :
    ({ s.goto f (.notifying (.popped value)) with msgQueue := rest } : State F M).Account := by
  intro hopen _ hwait
  have hzero := announced_eq_zero (hinv.holder f hholds) hself
  obtain ⟨fibers, hnodup, hfibers, hlength⟩ := h hopen (by rw [hqueue]; simp) hwait
  refine ⟨fibers.erase f, hnodup.erase f, fun g hg => ?_, ?_⟩
  · obtain ⟨hgf, hmem⟩ := hnodup.mem_erase_iff.mp hg
    exact (hfibers g hmem).keep (congrArg Pc.visit (pc_goto_of_ne hgf)) fun _ => id
  · change rest.length ≤ (fibers.erase f).length + _
    have herase := List.le_length_erase (a := f) (l := fibers)
    rw [hqueue, List.length_cons] at hlength
    omega

theorem account_test (h : s.Account) (hinv : s.Inv) {op : Op M} (hholds : (s.pc f).holds = true)
    (hself : ∀ value, s.pc f ≠ .notifying (.pushed value))
    (hvisit : op.waitsOn = .pushCv → (s.pc f).visit = none) (hstep : s.test f op = some t) :
    t.Account := by
  unfold test at hstep
  split at hstep
  · next hclosed =>
    cases hstep
    exact account_of_closed hclosed
  · cases op with
    | push value =>
        dsimp only at hstep
        split at hstep
        · exact h.beginWait_push hinv hholds hself (hvisit rfl) hstep
        · cases hstep
          exact h.push hinv hholds hself (hvisit rfl)
    | close =>
        cases hstep
        exact account_of_closed rfl
    | _ =>
        dsimp only at hstep
        split at hstep
        · next hqueue =>
          obtain ⟨r, hwait, hstep⟩ := Option.bind_eq_some_iff.mp hstep
          obtain ⟨cv, -, rfl⟩ := Option.map_eq_some_iff.mp hwait
          cases hstep
          exact account_of_empty hqueue
        · next value rest hqueue =>
          cases hstep
          exact h.pop hinv hholds hself hqueue

/-- `push` has a fiber look for its message. -/
theorem Account.notify (h : s.Account) (hinv : s.Inv) (hlinked : s.Linked) {value : M}
    {p : F × Option Nat} (hpc : s.pc f = .notifying (.pushed value)) {cv : CoCondVar.State F}
    (hstep : (s.cv .popCv).step (.notify g) = some cv) :
    ((s.setCv .popCv cv).goto f (.submitting (.pushed value) p)).Account := by
  obtain ⟨hkept, hmem, k, hticket, hfresh, hnow⟩ := (hlinked.cv .popCv).notifies hstep
  intro hopen hne _
  obtain ⟨fibers, hnodup, hfibers, hlength⟩ := h hopen hne (List.ne_nil_of_mem hmem)
  have hone := announced_eq_one (hinv.holder f (by rw [hpc]; rfl)) hpc
  have hvisit : (s.pc g).visit = some k := by
    have hon := hticket.symm.trans ((hlinked.fiber g).ticket .popCv)
    cases hg : s.pc g with
    | waiting op j | returning op j result =>
        rw [hg] at hon
        exact hon.symm
    | _ =>
        rw [hg] at hon
        cases hon
  have hgf : g ≠ f := by
    rintro rfl
    rw [hpc] at hvisit
    cases hvisit
  have hnew : ¬ s.Due g := by
    rintro ⟨j, hj, hdue⟩
    cases hj.symm.trans hvisit
    cases hfresh.symm.trans hdue
  set after := (s.setCv .popCv cv).goto f (.submitting (.pushed value) p) 
  have hcv : after.cv .popCv = cv := (setCv_self cv : (s.setCv .popCv cv).cv .popCv = cv)
  have hpcs : ∀ g, g ≠ f → after.pc g = s.pc g := fun g hg => pc_goto_of_ne hg
  refine ⟨g :: fibers, List.nodup_cons.mpr ⟨fun hg => hnew (hfibers g hg), hnodup⟩, ?_, ?_⟩
  · intro g' hg'
    rcases List.mem_cons.mp hg' with rfl | hg'
    · refine ⟨k, (congrArg Pc.visit (hpcs _ hgf)).trans hvisit, ?_⟩
      rw [notified, hcv]
      exact hnow
    · have hne : g' ≠ f := by
        rintro rfl
        exact not_due (by rw [hpc]; rfl) (hfibers g' hg')
      refine (hfibers g' hg').keep (congrArg Pc.visit (hpcs g' hne)) fun j hj => ?_
      rw [notified, hcv]
      exact hkept.notified j hj
  · change s.msgQueue.length ≤ _
    rw [List.length_cons]
    omega

theorem account_step (h : s.Account) (hinv : s.Inv) (hlinked : s.Linked) {l : Label F M}
    (hstep : s.step l = some t) : t.Account := by
  cases stepped_of_step hstep with
  | call hpc =>
      exact h.move hinv rfl (by rw [hpc]; simp) (Or.inl rfl) rfl rfl
        (.refl _) fun _ => by rw [hpc]; rfl
  | lock hpc hmutex =>
      exact h.move hinv rfl (by rw [hpc]; simp) (Or.inr (Or.inr hmutex)) rfl rfl
        (.refl _) fun _ => by rw [hpc]; rfl
  | test hpc htest =>
      rcases hpc with hpc | ⟨k, hpc⟩
      · exact account_test h hinv (by rw [hpc]; rfl) (by rw [hpc]; simp) (fun _ => by rw [hpc]; rfl)
          htest
      · refine account_test h hinv (by rw [hpc]; rfl) (by rw [hpc]; simp) (fun hside => ?_) htest
        rw [hpc, Pc.visit, hside]
        rfl
  | cv hself hcv =>
      have hpop := popCv_calm (calm_of_ofItself hself) hcv
      exact h.keep rfl rfl hpop.waitQueue (fun g hg => hg.keep rfl hpop.notified) (Nat.le_refl _)
  | resume hresume =>
      obtain ⟨cv, hcv, rfl⟩ := Option.map_eq_some_iff.mp (hlinked.resume_eq hresume)
      have hpop := popCv_calm rfl hcv
      exact h.keep rfl rfl hpop.waitQueue (fun g hg => hg.keep rfl hpop.notified) (Nat.le_refl _)
  | retake hpc hcv hmutex =>
      exact h.move hinv rfl (by rw [hpc]; simp) (Or.inr (Or.inr hmutex)) rfl rfl
        (popCv_setCv fun _ => remembers_leave hcv) fun _ => by rw [hpc]; rfl
  | finish hpc hcv hmutex =>
      exact h.move hinv rfl (by rw [hpc]; simp) (Or.inr (Or.inr hmutex)) rfl rfl (popCv_calm rfl hcv)
        fun _ => by rw [hpc]; rfl
  | leave hpc hcv =>
      refine h.move hinv rfl (by rw [hpc]; simp) (Or.inl rfl) rfl rfl
        (popCv_setCv fun _ => remembers_leave hcv) fun hdue => ?_
      -- a fiber that was notified comes back with `true`
      have hexamines := hlinked.examines hdue
      rw [Examines, hpc] at hexamines
      obtain ⟨-, -, rfl⟩ := hexamines
      rw [hpc]
      rfl
  | @pass f result hpc hempty =>
      by_cases hside : result.notifies = .popCv
      · -- there is nobody to notify
        rw [hside] at hempty
        exact fun _ _ hwait => absurd hempty hwait
      · refine h.move hinv rfl (fun value hvalue => hside ?_) (Or.inl rfl) rfl rfl (.refl _)
          fun _ => by rw [hpc]; rfl
        cases hpc.symm.trans hvalue
        rfl
  | @notify f g result p cv hpc hcv =>
      by_cases hside : result.notifies = .popCv
      · obtain ⟨value, rfl⟩ : ∃ value, result = .pushed value := by
          cases result with
          | pushed value => exact ⟨value, rfl⟩
          | _ => cases hside
        exact h.notify hinv hlinked hpc hcv
      · refine h.move hinv rfl (fun value hvalue => hside ?_) (Or.inl rfl) rfl rfl
          (popCv_setCv fun h => absurd h hside) fun _ => by rw [hpc]; rfl
        cases hpc.symm.trans hvalue
        rfl
  | submit hpc hcv =>
      exact h.move hinv rfl (by rw [hpc]; simp) (Or.inl rfl) rfl rfl (popCv_calm rfl hcv)
        fun _ => by rw [hpc]; rfl
  | notifyPushers hpc => exact account_of_closed (hinv.closing _ (by rw [hpc]; rfl))
  | notifyPoppers hpc => exact account_of_closed (hinv.closing _ (by rw [hpc]; rfl))
  | swap => exact account_of_empty rfl
  | unlock hpc =>
      exact h.move hinv rfl (by rw [hpc]; simp) (Or.inr (Or.inl (by rw [hpc]; rfl))) rfl rfl
        (.refl _) fun _ => by rw [hpc]; rfl

structure Kept (s : State F M) : Prop where
  inv : s.Inv
  linked : s.Linked
  account : s.Account

/-- **No stranded message**, for any number of fibers and in every order of their steps in which the
callbacks of the timers come in time. -/
theorem notStranded_of_inTime (s : State F M) (hreach : Reachable (Guarded InTime Step) New s) :
    s.NotStranded := by
  have hkept : s.Kept := by
    refine hreach.invariant ?_ ?_
    · intro s hnew
      exact ⟨inv_of_new hnew, linked_of_new hnew, account_of_empty hnew.msgQueue⟩
    · rintro s l t ⟨hinv, hlinked, haccount⟩ ⟨hintime, hstep⟩
      exact ⟨inv_step hinv hstep, linked_step hlinked hintime hstep,
        account_step haccount hinv hlinked hstep⟩
  exact hkept.linked.notStranded hkept.account

end Steps

section Examples

/-- Two fibers wait, the first with a timer; a message wakes the first. -/
def wokenFirst : List (Label Nat Nat) :=
  waits 0 (.waitFor true) ++ waits 1 .pop ++ pushes 2 7 0

theorem notStranded_of_inTime_wokenFirst :
    ∃ s : State Nat Nat, Reachable (Guarded InTime Step) New s ∧ s.isClosed = false ∧
      s.msgQueue = [7] ∧ (s.cv .popCv).waitQueue = [1] ∧ s.NotStranded := by
  obtain ⟨s, hrun, hvalue⟩ : ∃ s, wokenFirst.foldlM (guarded InTime step) newChannel = some s ∧
      (s.isClosed, s.msgQueue, (s.cv .popCv).waitQueue) = (false, [7], [1]) :=
    Option.map_eq_some_iff.mp (by decide)
  simp only [Prod.mk.injEq] at hvalue
  obtain ⟨hopen, hqueue, hwaiting⟩ := hvalue
  have hreach : Reachable (Guarded InTime Step) New s :=
    .of_run guarded_step (.start new_newChannel) hrun
  exact ⟨s, hreach, hopen, hqueue, hwaiting, notStranded_of_inTime s hreach⟩

/-- The timer of the first has expired before, and tells it only now that its time is up. -/
def tooLate : List (Label (Fin 3) Nat) :=
  waits 0 (.waitFor true) ++ waits 1 .pop ++ [.cv .popCv (.expire 0), .cv .popCv (.onTimer 0)] ++
    pushes 2 7 0 ++ [.cv .popCv (.callback 0), .resume 0 .popCv, .cv .popCv (.relock 0), .finish 0,
      .leave 0, .unlock 0]

theorem not_notStranded_tooLate :
    ∃ s : State (Fin 3) Nat, Reachable Step New s ∧ ¬ s.NotStranded := by
  obtain ⟨s, hrun, hvalue⟩ : ∃ s, tooLate.foldlM step newChannel = some s ∧
      (s.isClosed, s.msgQueue, (s.cv .popCv).waitQueue, s.announced) = (false, [7], [1], 0) :=
    Option.map_eq_some_iff.mp (by decide)
  have hrest : (tooLate.foldlM step newChannel).map (fun s => (s.notified 1, [s.pc 0, s.pc 1, s.pc 2]))
      = some (false, [.idle, .waiting .pop 1, .idle]) := by decide
  rw [hrun, Option.map_some] at hrest
  simp only [Prod.mk.injEq, Option.some.injEq, List.cons.injEq, and_true] at hvalue hrest
  obtain ⟨hopen, hqueue, hwaiting, hzero⟩ := hvalue
  obtain ⟨hnotified, hfirst, hsecond, hthird⟩ := hrest
  refine ⟨s, .of_run (fun _ _ _ hstep => hstep) (.start new_newChannel) hrun, fun h => ?_⟩
  obtain ⟨fibers, -, hexamines, hlength⟩ := h hopen (by simp [hqueue]) (by simp [hwaiting])
  have hnobody : ∀ f : Fin 3, ¬ s.Examines f := by
    refine Fin.forall_fin_succ.mpr ⟨?_, Fin.forall_fin_two.mpr ⟨?_, ?_⟩⟩
    · simp [Examines, hfirst]
    · simp [Examines, hsecond, hnotified]
    · simp [Examines, hthird]
  have hnil : fibers = [] :=
    List.eq_nil_iff_forall_not_mem.mpr fun f hf => hnobody f (hexamines f hf)
  rw [hqueue, hnil, hzero] at hlength
  exact absurd hlength (by decide)

end Examples

end State

end ChannelQueue

end AsyncRPC
