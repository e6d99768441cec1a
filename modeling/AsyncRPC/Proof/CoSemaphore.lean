import AsyncRPC.CoSemaphore
import AsyncRPC.Proof.CoCondVarSteps

/-!
# Permits and the fibers that wait for them

A fiber parks only when no permit is free, and a permit that is given back has one of the parked fibers
notified, as long as there is one. A newcomer may be faster than a notified fiber, but it takes a permit
and so needs one notified fiber less; a fiber that was notified uses up a permit or finds none.
-/

namespace AsyncRPC.CoSemaphore

open CoCondVar.State (Remembers remembers_leave)
open Transition

variable {F : Type}

/-- The wait that a fiber is in. -/
def Pc.ticket : Pc F → Option Nat
  | .waiting k => some k
  | _ => none

/-- The wait that a fiber is in or has just left. -/
def Pc.visit : Pc F → Option Nat
  | .waiting k | .woken k => some k
  | _ => none

namespace State

variable {s t : State F} {f g : F} {pc : Pc F} {var : CoCondVar.State F}

theorem retests_iff : s.Retests f ↔
    ∃ k, (s.pc f).visit = some k ∧ (s.var.waits k).any CoCondVar.Wait.notified = true := by
  unfold Retests
  cases s.pc f with
  | waiting k | woken k => exact ⟨fun h => ⟨k, rfl, h⟩, fun ⟨_, hk, h⟩ => Option.some.inj hk ▸ h⟩
  | _ =>
      refine iff_of_false id ?_
      rintro ⟨k, hk, -⟩
      cases hk

theorem not_retests (hvisit : (s.pc f).visit = none) : ¬ s.Retests f := by
  rw [retests_iff]
  rintro ⟨k, hk, -⟩
  cases hvisit.symm.trans hk

/-- A notification stays, whoever else moves. -/
theorem Retests.keep (h : s.Retests g) (hvisit : (t.pc g).visit = (s.pc g).visit)
    (hnotified : ∀ k, (s.var.waits k).any CoCondVar.Wait.notified = true →
      (t.var.waits k).any CoCondVar.Wait.notified = true) : t.Retests g := by
  obtain ⟨k, hk, hnote⟩ := retests_iff.mp h
  exact retests_iff.mpr ⟨k, hvisit.trans hk, hnotified k hnote⟩

section Steps

variable [DecidableEq F]

/-- What a step asks of the state before it and makes of it. -/
inductive Stepped (s : State F) : Label F → State F → Prop
  | call {f : F} {op : Op} (hpc : s.pc f = .idle) : Stepped s (.call f op) (s.goto f (.locking op))
  | lockWait {f : F} (hpc : s.pc f = .locking .wait) (hmutex : s.mutex = none) :
      Stepped s (.lock f) { s.goto f .testing with mutex := some f }
  | lockNotify {f : F} (hpc : s.pc f = .locking .notify) (hmutex : s.mutex = none) :
      Stepped s (.lock f) { s.goto f .lowering with mutex := some f }
  | test {f : F} {t : State F} (hpc : s.pc f = .testing ∨ ∃ k, s.pc f = .woken k)
      (htest : s.test f = some t) : Stepped s (.test f) t
  | yield {f : F} {var : CoCondVar.State F} (hvar : s.var.step (.yield f) = some var) :
      Stepped s (.yield f) { s with var := var }
  | resume {f : F} {var : CoCondVar.State F} (hvar : s.var.step (.resume f) = some var) :
      Stepped s (.resume f) { s with var := var }
  | retake {f : F} {k : Nat} {var : CoCondVar.State F} (hpc : s.pc f = .waiting k)
      (hvar : s.var.step (.leave f) = some var) (hmutex : s.mutex = none) :
      Stepped s (.retake f) { s.goto f (.woken k) with var := var, mutex := some f }
  | lower {f : F} (hpc : s.pc f = .lowering) :
      Stepped s (.lower f)
        { s.goto f .notifying with used := if s.used > 0 then s.used - 1 else s.used }
  | pass {f : F} (hpc : s.pc f = .notifying) (hempty : s.var.waitQueue = []) :
      Stepped s (.notify f none) (s.goto f .unlocking)
  | notify {f g : F} {p : F × Option Nat} {var : CoCondVar.State F} (hpc : s.pc f = .notifying)
      (hvar : s.var.step (.notify g) = some var) :
      Stepped s (.notify f (some g)) ({ s with var := var }.goto f (.submitting p))
  | submit {f : F} {p : F × Option Nat} {var : CoCondVar.State F} (hpc : s.pc f = .submitting p)
      (hvar : s.var.step (.submit p) = some var) :
      Stepped s (.submit f) ({ s with var := var }.goto f .unlocking)
  | unlock {f : F} (hpc : s.pc f = .unlocking) :
      Stepped s (.unlock f) { s.goto f .idle with mutex := none }

omit [DecidableEq F] in
theorem eq_take (hstep : s.take f = some t) : s.mutex = none ∧ t = { s with mutex := some f } := by
  unfold take at hstep
  split at hstep
  · next hmutex =>
    cases hstep
    exact ⟨hmutex, rfl⟩
  · cases hstep

theorem stepped_of_step {l : Label F} (hstep : s.step l = some t) : Stepped s l t := by
  cases l with
  | call f op | lower f | unlock f =>
      simp only [step] at hstep
      split at hstep
      · next hpc =>
        cases hstep
        constructor
        exact hpc
      · cases hstep
  | lock f =>
      simp only [step] at hstep
      split at hstep
      · next hpc =>
        obtain ⟨hmutex, rfl⟩ := eq_take hstep
        exact .lockWait hpc hmutex
      · next hpc =>
        obtain ⟨hmutex, rfl⟩ := eq_take hstep
        exact .lockNotify hpc hmutex
      · cases hstep
  | test f =>
      simp only [step] at hstep
      split at hstep
      · next hpc => exact .test (Or.inl hpc) hstep
      · next k hpc => exact .test (Or.inr ⟨k, hpc⟩) hstep
      · cases hstep
  | yield f =>
      obtain ⟨var, hvar, rfl⟩ := Option.map_eq_some_iff.mp hstep
      exact .yield hvar
  | resume f =>
      obtain ⟨var, hvar, rfl⟩ := Option.map_eq_some_iff.mp hstep
      exact .resume hvar
  | retake f =>
      simp only [step] at hstep
      split at hstep
      · next k hpc =>
        obtain ⟨r, hleave, hstep⟩ := Option.bind_eq_some_iff.mp hstep
        obtain ⟨var, hvar, rfl⟩ := Option.map_eq_some_iff.mp hleave
        obtain ⟨hmutex, rfl⟩ := eq_take hstep
        exact .retake hpc hvar hmutex
      · cases hstep
  | notify f first =>
      simp only [step] at hstep
      split at hstep
      · next hpc =>
        cases first with
        | none =>
            dsimp only at hstep
            split at hstep
            · next hempty =>
              cases hstep
              exact .pass hpc hempty.2
            · cases hstep
        | some g =>
            obtain ⟨r, hnotify, hstep⟩ := Option.bind_eq_some_iff.mp hstep
            obtain ⟨var, hvar, rfl⟩ := Option.map_eq_some_iff.mp hnotify
            cases hstep
            exact .notify hpc hvar
      · cases hstep
  | submit f =>
      simp only [step] at hstep
      split at hstep
      · next p hpc =>
        obtain ⟨r, hsubmit, hstep⟩ := Option.bind_eq_some_iff.mp hstep
        obtain ⟨var, hvar, rfl⟩ := Option.map_eq_some_iff.mp hsubmit
        cases hstep
        exact .submit hpc hvar
      · cases hstep

/-! ### Who has the mutex, and who is in which wait -/

/-- Each fiber is in the wait that its call says, and `mutex_` is with whom it should be. -/
structure Linked (s : State F) : Prop where
  holder : ∀ f, (s.pc f).holds = true → s.mutex = some f
  var : s.var.Inv
  ticket : ∀ f, (s.var.pc f).ticket = (s.pc f).ticket

theorem linked_of_new (h : New s) : s.Linked where
  holder f hf := by
    rw [h.pc f] at hf
    cases hf
  var := CoCondVar.State.inv_of_new h.var
  ticket f := by
    rw [h.var.pc f, h.pc f]
    rfl

theorem pc_goto_self : (s.goto f pc).pc f = pc := Function.update_self _ _ _

theorem pc_goto_of_ne (h : g ≠ f) : (s.goto f pc).pc g = s.pc g := Function.update_of_ne h _ _

theorem Linked.inv_var (h : s.Linked) {l : CoCondVar.Label F} (hintime : s.var.InTime l)
    (hstep : s.var.step l = some var) : var.Inv :=
  CoCondVar.State.inv_step h.var hintime hstep

/-- One fiber moves on, with a step of `var_` in which the others stay in their waits. -/
theorem Linked.move (h : s.Linked) (hpc : t.pc = (s.goto f pc).pc) (hvar : t.var.Inv)
    (hself : (t.var.pc f).ticket = pc.ticket)
    (hothers : ∀ g, g ≠ f → (t.var.pc g).ticket = (s.var.pc g).ticket)
    (hholds : pc.holds = true → t.mutex = some f)
    (hheld : ∀ g, g ≠ f → s.mutex = some g → t.mutex = some g) : t.Linked where
  holder g hg := by
    rw [hpc] at hg
    by_cases hgf : g = f
    · subst hgf
      rw [pc_goto_self] at hg
      exact hholds hg
    · rw [pc_goto_of_ne hgf] at hg
      exact hheld g hgf (h.holder g hg)
  var := hvar
  ticket g := by
    rw [hpc]
    by_cases hgf : g = f
    · subst hgf
      rw [pc_goto_self, hself]
    · rw [pc_goto_of_ne hgf, hothers g hgf, h.ticket g]

/-- One fiber moves on, outside of its waits. -/
theorem Linked.goto (h : s.Linked) (hpc : t.pc = (s.goto f pc).pc) (hvar : t.var = s.var)
    (hticket : pc.ticket = (s.pc f).ticket) (hholds : pc.holds = true → t.mutex = some f)
    (hheld : ∀ g, g ≠ f → s.mutex = some g → t.mutex = some g) : t.Linked := by
  refine h.move hpc (hvar ▸ h.var) ?_ (fun g _ => by rw [hvar]) hholds hheld
  rw [hvar, h.ticket f, hticket]

theorem Linked.of_calm (h : s.Linked) {l : CoCondVar.Label F}
    (hintime : s.var.InTime l) (hcalm : CoCondVar.State.calm l = true)
    (hstep : s.var.step l = some var) : ({ s with var := var } : State F).Linked where
  holder := h.holder
  var := h.inv_var hintime hstep
  ticket g := ((CoCondVar.State.calm_step hcalm hstep).ticket g).trans (h.ticket g)

omit [DecidableEq F] in
theorem ne_of_mutex_none (hmutex : s.mutex = none) {P : Prop} (hg : s.mutex = some g) : P := by
  rw [hmutex] at hg
  cases hg

/-- The holder of `mutex_` is the only one. -/
theorem Linked.eq_holder (h : s.Linked) (hf : (s.pc f).holds = true) (hg : s.mutex = some g) :
    g = f :=
  Option.some.inj (hg.symm.trans (h.holder f hf))

theorem linked_test (h : s.Linked) (hholds : (s.pc f).holds = true) (hticket : (s.pc f).ticket = none)
    (hstep : s.test f = some t) : t.Linked := by
  unfold test at hstep
  split at hstep
  · obtain ⟨r, hwait, hstep⟩ := Option.bind_eq_some_iff.mp hstep
    obtain ⟨var, hvar, rfl⟩ := Option.map_eq_some_iff.mp hwait
    cases hstep
    have hinsert : s.var.step (if false then .waitFor f else .wait f) = some var := hvar
    obtain ⟨-, hself, hothers⟩ := CoCondVar.State.insert_spec hinsert
    refine h.move rfl (h.inv_var (by trivial) hvar) hself ?_ ?_ ?_
    · intro g hg
      exact congrArg CoCondVar.Pc.ticket (hothers g hg)
    · exact fun hfalse => Bool.noConfusion hfalse
    · exact fun g hg hmutex => absurd (h.eq_holder hholds hmutex) hg
  · cases hstep
    exact h.goto rfl rfl hticket.symm (fun _ => h.holder f hholds) fun _ _ => id

theorem linked_step (h : s.Linked) {l : Label F} (hstep : s.step l = some t) : t.Linked := by
  cases stepped_of_step hstep with
  | call hpc =>
      exact h.goto rfl rfl (by rw [hpc]; rfl) (fun hfalse => Bool.noConfusion hfalse) fun _ _ => id
  | lockWait hpc hmutex =>
      exact h.goto rfl rfl (by rw [hpc]; rfl) (fun _ => rfl) fun _ _ hg => ne_of_mutex_none hmutex hg
  | lockNotify hpc hmutex =>
      exact h.goto rfl rfl (by rw [hpc]; rfl) (fun _ => rfl) fun _ _ hg => ne_of_mutex_none hmutex hg
  | test hpc htest =>
      rcases hpc with hpc | ⟨k, hpc⟩
      · exact linked_test h (by rw [hpc]; rfl) (by rw [hpc]; rfl) htest
      · exact linked_test h (by rw [hpc]; rfl) (by rw [hpc]; rfl) htest
  | yield hvar => exact h.of_calm (by trivial) rfl hvar
  | resume hvar => exact h.of_calm (by trivial) rfl hvar
  | retake hpc hvar hmutex =>
      obtain ⟨hself, hothers, -⟩ := CoCondVar.State.leave_spec hvar
      refine h.move rfl (h.inv_var (by trivial) hvar) hself ?_ (fun _ => rfl) ?_
      · intro g hg
        exact congrArg CoCondVar.Pc.ticket (hothers g hg)
      · exact fun _ _ hg => ne_of_mutex_none hmutex hg
  | lower hpc =>
      exact h.goto rfl rfl (by rw [hpc]; rfl) (fun _ => h.holder _ (by rw [hpc]; rfl)) fun _ _ => id
  | pass hpc =>
      exact h.goto rfl rfl (by rw [hpc]; rfl) (fun _ => h.holder _ (by rw [hpc]; rfl)) fun _ _ => id
  | @notify f g p var hpc hvar =>
      obtain ⟨-, hsame, -⟩ := CoCondVar.State.notify_spec hvar
      have hpcs : ∀ g, (var.pc g).ticket = (s.var.pc g).ticket := fun g => by rw [hsame]
      refine h.move rfl (h.inv_var (by trivial) hvar) ?_ (fun g _ => hpcs g)
        (fun _ => h.holder f (by rw [hpc]; rfl)) fun _ _ => id
      exact (hpcs f).trans ((h.ticket f).trans (by rw [hpc]; rfl))
  | submit hpc hvar =>
      exact (h.of_calm (by trivial) rfl hvar).goto rfl rfl (congrArg Pc.ticket hpc).symm
        (fun _ => h.holder _ (by rw [hpc]; rfl)) fun _ _ => id
  | unlock hpc =>
      exact h.goto rfl rfl (by rw [hpc]; rfl) (fun hfalse => Bool.noConfusion hfalse)
        fun g hg hmutex => absurd (h.eq_holder (by rw [hpc]; rfl) hmutex) hg

/-! ### The account -/

/-- A call of `notify` has given a permit back and notified nobody yet. -/
def Owing (s : State F) : Prop := ∃ f, s.pc f = .notifying

/-- `Accounted`, with room for the one notification that is still to come. -/
structure Account (s : State F) : Prop where
  used_le : s.used ≤ s.num
  notified : s.var.waitQueue ≠ [] →
    ∃ fibers : List F, fibers.Nodup ∧ (∀ f ∈ fibers, s.Retests f) ∧
      s.num ≤ s.used + fibers.length + 1 ∧ (¬ s.Owing → s.num ≤ s.used + fibers.length)

omit [DecidableEq F] in
theorem account_of_new (h : New s) : s.Account where
  used_le := h.used ▸ Nat.zero_le _
  notified hne := absurd h.var.waitQueue hne

theorem Linked.not_owing (h : s.Linked) (hholds : (s.pc f).holds = true)
    (hpc : s.pc f ≠ .notifying) : ¬ s.Owing := by
  rintro ⟨g, hg⟩
  have hgf : g = f := h.eq_holder hholds (h.holder g (by rw [hg]; rfl))
  exact hpc (hgf ▸ hg)

theorem Linked.not_owing_of_free (h : s.Linked) (hmutex : s.mutex = none) : ¬ s.Owing := by
  rintro ⟨g, hg⟩
  exact ne_of_mutex_none hmutex (h.holder g (by rw [hg]; rfl))

theorem Account.accounted (h : s.Account) (hlinked : s.Linked) (hmutex : s.mutex = none) :
    s.Accounted where
  used_le := h.used_le
  notified hne := by
    obtain ⟨fibers, hnodup, hfibers, -, hlength⟩ := h.notified hne
    have hcovered := hlength (hlinked.not_owing_of_free hmutex)
    exact ⟨fibers, hnodup, hfibers, Nat.sub_le_iff_le_add'.mpr hcovered⟩

omit [DecidableEq F] in
/-- A step that takes no permit and gives none back, and after which the notified fibers are still to
test. -/
theorem Account.keep (h : s.Account) (hnum : t.num = s.num) (hused : t.used = s.used)
    (hqueue : t.var.waitQueue ⊆ s.var.waitQueue) (hretests : ∀ g, s.Retests g → t.Retests g)
    (howing : s.Owing → t.Owing) : t.Account where
  used_le := by
    rw [hnum, hused]
    exact h.used_le
  notified hne := by
    have hne' : s.var.waitQueue ≠ [] := by
      obtain ⟨g, hg⟩ := List.exists_mem_of_ne_nil _ hne
      exact List.ne_nil_of_mem (hqueue hg)
    obtain ⟨fibers, hnodup, hfibers, hlength, hexact⟩ := h.notified hne'
    refine ⟨fibers, hnodup, fun g hg => hretests g (hfibers g hg), ?_, fun hnot => ?_⟩
    · rw [hnum, hused]
      exact hlength
    · rw [hnum, hused]
      exact hexact fun hwas => hnot (howing hwas)

omit [DecidableEq F] in
theorem Account.stepVar (h : s.Account) (hvar : Remembers s.var var) :
    ({ s with var := var } : State F).Account :=
  h.keep rfl rfl hvar.waitQueue (fun _ hg => hg.keep rfl hvar.notified) id

/-- One fiber moves on, in the same wait if it is in one. -/
theorem Account.move (h : s.Account) (hpc : t.pc = (s.goto f pc).pc) (hnum : t.num = s.num)
    (hused : t.used = s.used) (hvar : Remembers s.var t.var) (hvisit : pc.visit = (s.pc f).visit)
    (hself : s.pc f ≠ .notifying) : t.Account := by
  refine h.keep hnum hused hvar.waitQueue (fun g hg => hg.keep ?_ hvar.notified) ?_
  · rw [hpc]
    exact Parties.get_update Pc.visit hvisit g
  · rintro ⟨g, hg⟩
    have hgf : g ≠ f := fun heq => hself (heq ▸ hg)
    exact ⟨g, by rw [hpc, pc_goto_of_ne hgf, hg]⟩

/-- A fiber that finds a permit takes it, one that finds none parks. -/
theorem account_test (h : s.Account) (hlinked : s.Linked) (hholds : (s.pc f).holds = true)
    (hself : s.pc f ≠ .notifying) (hstep : s.test f = some t) : t.Account := by
  unfold test at hstep
  split at hstep
  · next hfull =>
    obtain ⟨r, hwait, hstep⟩ := Option.bind_eq_some_iff.mp hstep
    obtain ⟨var, -, rfl⟩ := Option.map_eq_some_iff.mp hwait
    cases hstep
    have hle : s.num ≤ s.used + ([] : List F).length := hfull
    exact ⟨h.used_le, fun _ => ⟨[], List.nodup_nil, fun g hg => absurd hg List.not_mem_nil,
      hle.trans (Nat.le_succ _), fun _ => hle⟩⟩
  · next hfree =>
    cases hstep
    refine ⟨Nat.lt_of_not_le hfree, fun hne => ?_⟩
    obtain ⟨fibers, hnodup, hfibers, -, hexact⟩ := h.notified hne
    have hlength := hexact (hlinked.not_owing hholds hself)
    have herase := List.le_length_erase (a := f) (l := fibers)
    refine ⟨fibers.erase f, hnodup.erase f, fun g hg => ?_, ?_, fun _ => ?_⟩
    · obtain ⟨hgf, hmem⟩ := hnodup.mem_erase_iff.mp hg
      exact (hfibers g hmem).keep (congrArg Pc.visit (pc_goto_of_ne hgf)) fun _ => id
    · change s.num ≤ s.used + 1 + (fibers.erase f).length + 1
      omega
    · change s.num ≤ s.used + 1 + (fibers.erase f).length
      omega

/-- A permit given back is owed a notification. -/
theorem Account.lower (h : s.Account) (hlinked : s.Linked) (hpc : s.pc f = .lowering) :
    ({ s.goto f .notifying with used := if s.used > 0 then s.used - 1 else s.used } :
      State F).Account := by
  have hle : (if s.used > 0 then s.used - 1 else s.used) ≤ s.used ∧
      s.used ≤ (if s.used > 0 then s.used - 1 else s.used) + 1 := by
    split
    · omega
    · omega
  refine ⟨hle.1.trans h.used_le, fun hne => ?_⟩
  obtain ⟨fibers, hnodup, hfibers, -, hexact⟩ := h.notified hne
  have hlength := hexact (hlinked.not_owing (by rw [hpc]; rfl) (by rw [hpc]; simp))
  refine ⟨fibers, hnodup, fun g hg => ?_, ?_, fun hnot => absurd ⟨f, pc_goto_self⟩ hnot⟩
  · have hgf : g ≠ f := by
      rintro rfl
      exact not_retests (by rw [hpc]; rfl) (hfibers g hg)
    exact (hfibers g hg).keep (congrArg Pc.visit (pc_goto_of_ne hgf)) fun _ => id
  · change s.num ≤ (if s.used > 0 then s.used - 1 else s.used) + fibers.length + 1
    omega

/-- The notification makes one fiber more test. -/
theorem Account.notify (h : s.Account) (hlinked : s.Linked) {p : F × Option Nat}
    (hpc : s.pc f = .notifying) (hstep : s.var.step (.notify g) = some var) :
    ({ s with var := var }.goto f (.submitting p) : State F).Account := by
  obtain ⟨hkept, hmem, k, hticket, hfresh, hnow⟩ := hlinked.var.notifies hstep
  refine ⟨h.used_le, fun _ => ?_⟩
  obtain ⟨fibers, hnodup, hfibers, hlength, -⟩ := h.notified (List.ne_nil_of_mem hmem)
  have hvisit : (s.pc g).visit = some k := by
    have hon := hticket.symm.trans (hlinked.ticket g)
    cases hg : s.pc g with
    | waiting j =>
        rw [hg] at hon
        exact hon.symm
    | _ =>
        rw [hg] at hon
        cases hon
  have hgf : g ≠ f := by
    rintro rfl
    rw [hpc] at hvisit
    cases hvisit
  have hnew : ¬ s.Retests g := by
    rw [retests_iff]
    rintro ⟨j, hj, hnote⟩
    cases hj.symm.trans hvisit
    cases hfresh.symm.trans hnote
  have hpcs : ∀ g', g' ≠ f →
      (({ s with var := var }.goto f (.submitting p) : State F).pc g').visit = (s.pc g').visit :=
    fun g' hg' => congrArg Pc.visit (pc_goto_of_ne hg')
  have hlengths : s.num ≤ s.used + (g :: fibers).length := by
    rw [List.length_cons]
    omega
  refine ⟨g :: fibers, List.nodup_cons.mpr ⟨fun hg => hnew (hfibers g hg), hnodup⟩, ?_,
    hlengths.trans (Nat.le_succ _), fun _ => hlengths⟩
  intro g' hg'
  rcases List.mem_cons.mp hg' with rfl | hg'
  · exact retests_iff.mpr ⟨k, (hpcs _ hgf).trans hvisit, hnow⟩
  · have hne : g' ≠ f := by
      rintro rfl
      exact not_retests (by rw [hpc]; rfl) (hfibers g' hg')
    exact (hfibers g' hg').keep (hpcs g' hne) hkept.notified

theorem account_step (h : s.Account) (hlinked : s.Linked) {l : Label F} (hstep : s.step l = some t) :
    t.Account := by
  cases stepped_of_step hstep with
  | call hpc => exact h.move rfl rfl rfl (.refl _) (by rw [hpc]; rfl) (by rw [hpc]; simp)
  | lockWait hpc => exact h.move rfl rfl rfl (.refl _) (by rw [hpc]; rfl) (by rw [hpc]; simp)
  | lockNotify hpc => exact h.move rfl rfl rfl (.refl _) (by rw [hpc]; rfl) (by rw [hpc]; simp)
  | test hpc htest =>
      rcases hpc with hpc | ⟨k, hpc⟩
      · exact account_test h hlinked (by rw [hpc]; rfl) (by rw [hpc]; simp) htest
      · exact account_test h hlinked (by rw [hpc]; rfl) (by rw [hpc]; simp) htest
  | yield hvar => exact h.stepVar (CoCondVar.State.calm_step rfl hvar).remembers
  | resume hvar => exact h.stepVar (CoCondVar.State.calm_step rfl hvar).remembers
  | retake hpc hvar =>
      exact h.move rfl rfl rfl (remembers_leave hvar) (by rw [hpc]; rfl) (by rw [hpc]; simp)
  | lower hpc => exact h.lower hlinked hpc
  | pass hpc hempty => exact ⟨h.used_le, fun hne => absurd hempty hne⟩
  | notify hpc hvar => exact h.notify hlinked hpc hvar
  | submit hpc hvar =>
      exact h.move rfl rfl rfl (CoCondVar.State.calm_step rfl hvar).remembers (by rw [hpc]; rfl)
        (by rw [hpc]; simp)
  | unlock hpc => exact h.move rfl rfl rfl (.refl _) (by rw [hpc]; rfl) (by rw [hpc]; simp)

structure Kept (s : State F) : Prop where
  linked : s.Linked
  account : s.Account

/-- **Every free permit is accounted for**, for any number of fibers and in every order of their
steps, whenever no fiber is in a critical section. -/
theorem accounted_of_free (s : State F) (hreach : Reachable Step New s) (hmutex : s.mutex = none) :
    s.Accounted := by
  have hkept : s.Kept := by
    refine hreach.invariant ?_ ?_
    · intro s hnew
      exact ⟨linked_of_new hnew, account_of_new hnew⟩
    · rintro s l t ⟨hlinked, haccount⟩ hstep
      exact ⟨linked_step hlinked hstep, account_step haccount hlinked hstep⟩
  exact hkept.account.accounted hkept.linked hmutex

end Steps

section Examples

def newSemaphore (num : Nat) : State Nat :=
  { mutex := none
    var := { mutex := false, waitQueue := [], ready := [], pending := [], waits := fun _ => none,
             next := 0, pc := fun _ => .idle }
    num := num
    used := 0
    pc := fun _ => .idle }

theorem new_newSemaphore (num : Nat) : New (newSemaphore num) :=
  ⟨rfl, ⟨rfl, rfl, rfl, rfl, fun _ => rfl, fun _ => rfl⟩, rfl, fun _ => rfl⟩

/-- One permit is taken, two fibers wait for it, and it is given back. -/
def givenBack : List (Label Nat) :=
  [.call 0 .wait, .lock 0, .test 0, .unlock 0, .call 1 .wait, .lock 1, .test 1, .yield 1,
    .call 2 .wait, .lock 2, .test 2, .yield 2, .call 0 .notify, .lock 0, .lower 0, .notify 0 (some 1),
    .submit 0, .unlock 0, .resume 1]

theorem accounted_of_free_givenBack :
    ∃ s : State Nat, Reachable Step New s ∧ s.mutex = none ∧ s.used = 0 ∧ s.var.waitQueue = [2] ∧
      s.Accounted := by
  obtain ⟨s, hrun, hvalue⟩ : ∃ s, givenBack.foldlM step (newSemaphore 1) = some s ∧
      (s.mutex, s.used, s.var.waitQueue) = (none, 0, [2]) :=
    Option.map_eq_some_iff.mp (by decide)
  simp only [Prod.mk.injEq] at hvalue
  obtain ⟨hmutex, hused, hqueue⟩ := hvalue
  have hreach : Reachable Step New s :=
    .of_run (fun _ _ _ hstep => hstep) (.start (new_newSemaphore 1)) hrun
  exact ⟨s, hreach, hmutex, hused, hqueue, accounted_of_free s hreach hmutex⟩

end Examples

end State

end AsyncRPC.CoSemaphore
