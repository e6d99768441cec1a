import AsyncRPC.Channel
import AsyncRPC.Proof.CoMutex

/-!
# Spin locks across a suspension

A fiber has the spin lock of a condition variable in two places: where it gives the mutex up, which
never suspends, and where `waitFor` takes it back. There it goes through `CoMutex::lock`, and stays
clear of the wait queue only as long as one of the two `trylock`s succeeds.
-/

namespace AsyncRPC.CoMutex

variable {F : Type} [DecidableEq F] {this : F → This} {s t : State F} {f : F}

/-- In `unlock`, or in no call. -/
def Pc.unlocks : Pc F → Bool
  | .idle | .unlockGuard | .clearId | .pop | .release _ | .guardRelease _ | .submit _ => true
  | _ => false

/-- In `lock` before the wait queue, or in no call. -/
def Pc.tries : Pc F → Bool
  | .idle | .tryOuter | .tryInner | .setId => true
  | _ => false

namespace State

theorem pc_goto_self {pc : Pc F} : (s.goto f pc).pc f = pc := by
  simp [State.goto]

theorem pc_enter_self : (s.enter f).pc f = .idle := pc_goto_self

theorem pc_trylock (other : Pc F) :
    (s.trylock f other).pc = Function.update s.pc f (if s.mutex then other else .setId) := by
  rw [trylock]
  split
  · rfl
  · rfl

theorem pc_lockGuard {pc : Pc F} (h : s.lockGuard f pc = some t) :
    t.pc = Function.update s.pc f pc := by
  rw [lockGuard] at h
  split at h
  · cases h
  · cases h
    rfl

theorem pc_advance (hstep : s.advance this f = some t) : ∃ pc, t.pc = Function.update s.pc f pc := by
  cases hpc : s.pc f with
  | idle => simp [advance, hpc] at hstep
  | parked => simp [advance, hpc] at hstep
  | tryOuter =>
      simp only [advance, hpc, Option.some.injEq] at hstep
      exact hstep ▸ ⟨_, pc_trylock _⟩
  | tryInner =>
      simp only [advance, hpc, Option.some.injEq] at hstep
      exact hstep ▸ ⟨_, pc_trylock _⟩
  | guardLock =>
      simp only [advance, hpc] at hstep
      exact ⟨_, pc_lockGuard hstep⟩
  | unlockGuard =>
      simp only [advance, hpc] at hstep
      exact ⟨_, pc_lockGuard hstep⟩
  | push =>
      simp only [advance, hpc] at hstep
      split at hstep
      · cases hstep
      · cases hstep
        exact ⟨_, rfl⟩
  | yield =>
      simp only [advance, hpc] at hstep
      split at hstep
      · cases hstep
      · cases hstep
        exact ⟨_, rfl⟩
      · cases hstep
        exact ⟨_, rfl⟩
  | pop =>
      simp only [advance, hpc] at hstep
      split at hstep
      · cases hstep
        exact ⟨_, rfl⟩
      · cases hstep
        exact ⟨_, rfl⟩
  | guardUnlock =>
      simp only [advance, hpc, Option.some.injEq] at hstep
      exact hstep ▸ ⟨_, rfl⟩
  | setId =>
      simp only [advance, hpc, Option.some.injEq] at hstep
      exact hstep ▸ ⟨_, rfl⟩
  | clearId =>
      simp only [advance, hpc, Option.some.injEq] at hstep
      exact hstep ▸ ⟨_, rfl⟩
  | release next =>
      simp only [advance, hpc, Option.some.injEq] at hstep
      exact hstep ▸ ⟨_, rfl⟩
  | guardRelease next =>
      simp only [advance, hpc, Option.some.injEq] at hstep
      exact hstep ▸ ⟨_, rfl⟩
  | submit next =>
      simp only [advance, hpc, Option.some.injEq] at hstep
      exact hstep ▸ ⟨_, rfl⟩

theorem pc_step_of_ne {l : Label F} {g : F} (hstep : s.step this l = some t) (hg : g ≠ l.fiber) :
    t.pc g = s.pc g := by
  obtain ⟨pc, hpc⟩ : ∃ pc, t.pc = Function.update s.pc l.fiber pc := by
    cases l with
    | lock f =>
        simp only [State.step] at hstep
        split at hstep
        · cases hstep
          rw [State.lock]
          split
          · exact ⟨_, rfl⟩
          · exact ⟨_, rfl⟩
        · cases hstep
    | unlock f =>
        simp only [State.step] at hstep
        split at hstep
        · cases hstep
          exact ⟨_, rfl⟩
        · cases hstep
    | advance f => exact pc_advance hstep
    | resume f =>
        simp only [State.step] at hstep
        split at hstep
        · cases hstep
          exact ⟨_, rfl⟩
        · cases hstep
  rw [hpc, Function.update_of_ne hg]

theorem tries_lock (hstep : s.step this (.lock f) = some t) : (t.pc f).tries = true := by
  simp only [State.step] at hstep
  split at hstep
  · cases hstep
    rw [State.lock]
    split
    · rw [pc_enter_self]
      rfl
    · rw [pc_goto_self]
      rfl
  · cases hstep

theorem unlocks_unlock (hstep : s.step this (.unlock f) = some t) : (t.pc f).unlocks = true := by
  simp only [State.step] at hstep
  split at hstep
  · cases hstep
    have hpc : (s.unlock f).pc f = .unlockGuard := pc_goto_self
    rw [hpc]
    rfl
  · cases hstep

theorem parked_of_resume (hstep : s.step this (.resume f) = some t) : s.pc f = .parked := by
  simp only [State.step] at hstep
  split at hstep
  · next hparked => exact hparked.1
  · cases hstep

theorem unlocks_advance (h : (s.pc f).unlocks = true) (hstep : s.advance this f = some t) :
    (t.pc f).unlocks = true := by
  cases hpc : s.pc f with
  | idle => simp [advance, hpc] at hstep
  | unlockGuard =>
      simp only [advance, hpc] at hstep
      rw [pc_lockGuard hstep, Function.update_self]
      rfl
  | clearId =>
      simp only [advance, hpc, Option.some.injEq] at hstep
      subst hstep
      exact congrArg Pc.unlocks (pc_goto_self (s := s))
  | pop =>
      simp only [advance, hpc] at hstep
      split at hstep
      · cases hstep
        exact congrArg Pc.unlocks (pc_goto_self (s := s))
      · cases hstep
        exact congrArg Pc.unlocks (pc_goto_self (s := s))
  | release next =>
      simp only [advance, hpc, Option.some.injEq] at hstep
      subst hstep
      exact congrArg Pc.unlocks (pc_goto_self (s := s))
  | guardRelease next =>
      simp only [advance, hpc, Option.some.injEq] at hstep
      subst hstep
      exact congrArg Pc.unlocks (pc_goto_self (s := s))
  | submit next =>
      simp only [advance, hpc, Option.some.injEq] at hstep
      subst hstep
      exact congrArg Pc.unlocks (pc_goto_self (s := s))
  | tryOuter => simp [hpc, Pc.unlocks] at h
  | tryInner => simp [hpc, Pc.unlocks] at h
  | guardLock => simp [hpc, Pc.unlocks] at h
  | push => simp [hpc, Pc.unlocks] at h
  | guardUnlock => simp [hpc, Pc.unlocks] at h
  | yield => simp [hpc, Pc.unlocks] at h
  | parked => simp [hpc, Pc.unlocks] at h
  | setId => simp [hpc, Pc.unlocks] at h

theorem tries_advance (h : (s.pc f).tries = true) (hfree : s.pc f = .tryInner → s.mutex = false)
    (hstep : s.advance this f = some t) : (t.pc f).tries = true := by
  cases hpc : s.pc f with
  | idle => simp [advance, hpc] at hstep
  | tryOuter =>
      simp only [advance, hpc, Option.some.injEq] at hstep
      subst hstep
      rw [pc_trylock, Function.update_self]
      split
      · rfl
      · rfl
  | tryInner =>
      simp only [advance, hpc, Option.some.injEq] at hstep
      subst hstep
      rw [pc_trylock, Function.update_self, hfree hpc]
      rfl
  | setId =>
      simp only [advance, hpc, Option.some.injEq] at hstep
      subst hstep
      exact congrArg Pc.tries (pc_enter_self (s := s))
  | unlockGuard => simp [hpc, Pc.tries] at h
  | clearId => simp [hpc, Pc.tries] at h
  | pop => simp [hpc, Pc.tries] at h
  | release next => simp [hpc, Pc.tries] at h
  | guardRelease next => simp [hpc, Pc.tries] at h
  | submit next => simp [hpc, Pc.tries] at h
  | guardLock => simp [hpc, Pc.tries] at h
  | push => simp [hpc, Pc.tries] at h
  | guardUnlock => simp [hpc, Pc.tries] at h
  | yield => simp [hpc, Pc.tries] at h
  | parked => simp [hpc, Pc.tries] at h

end State

end AsyncRPC.CoMutex

namespace AsyncRPC.Channel

open CoMutex (This)
open Transition

variable {F M : Type} {this : F → This} {s t : State F M} {f : F}

/-- Where the mutex's call of a fiber is, for the places at which the fiber has a spin lock and those at
which it is parked. -/
def Fits : Pc F M → CoMutex.Pc F → Prop
  | .inserted _, pc => pc.unlocks = true
  | .relocked _, pc => pc.tries = true
  | .parked _, pc => pc = .idle
  | _, _ => True

/-- The condition variable whose spin lock a fiber has. -/
def Pc.holds : Pc F M → Option Side
  | .inserted op | .relocked op => some op.waitsOn
  | _ => none

theorem not_parked_of_holds {pc : Pc F M} {side : Side} (h : pc.holds = some side)
    {mutexPc : CoMutex.Pc F} (hfits : Fits pc mutexPc) :
    mutexPc ≠ .parked ∧ ∀ op, pc ≠ .parked op := by
  cases pc with
  | inserted op =>
      refine ⟨?_, fun _ heq => by cases heq⟩
      rintro rfl
      cases hfits
  | relocked op =>
      refine ⟨?_, fun _ heq => by cases heq⟩
      rintro rfl
      cases hfits
  | idle | leaving => cases h
  | entered op | yielding op | parked op | woken op | returning op result => cases h
  | notifying side | notifyingAll side | submitting next => cases h

namespace State

structure Inv (s : State F M) : Prop where
  fits : ∀ f, Fits (s.pc f) (s.mutex.pc f)
  owner : ∀ side f, (s.cv side).owner = some f → (s.pc f).holds = some side

theorem Inv.noParkedSpinner (h : s.Inv) : s.NoParkedSpinner := by
  rintro f hparked (hguard | ⟨side, howner⟩)
  · rcases hparked with hmutex | ⟨op, hpc⟩
    · rw [hmutex] at hguard
      cases hguard
    · have hidle := h.fits f
      rw [hpc] at hidle
      rw [show s.mutex.pc f = .idle from hidle] at hguard
      cases hguard
  · obtain ⟨hmutex, hpc⟩ := not_parked_of_holds (h.owner side f howner) (h.fits f)
    rcases hparked with hparked | ⟨op, hparked⟩
    · exact hmutex hparked
    · exact hpc op hparked

theorem inv_of_new (h : New s) : s.Inv where
  fits f := by
    rw [h.pc f]
    trivial
  owner side f howner := by
    rw [h.owner side] at howner
    cases howner

variable [DecidableEq F]

/-- A step of `f`: the spin locks it has afterwards are those of its place, and those of the others
stay. -/
structure Frame (s : State F M) (f : F) (t : State F M) : Prop where
  pc : ∀ g, g ≠ f → t.pc g = s.pc g
  mutex : ∀ g, g ≠ f → t.mutex.pc g = s.mutex.pc g
  owner : ∀ side g, (t.cv side).owner = some g →
    ((s.cv side).owner = some g ∧ g ≠ f) ∨ (g = f ∧ (t.pc f).holds = some side)

theorem Frame.inv (hframe : Frame s f t) (h : s.Inv) (hfits : Fits (t.pc f) (t.mutex.pc f)) :
    t.Inv := by
  constructor
  · intro g
    by_cases hg : g = f
    · exact hg ▸ hfits
    · rw [hframe.pc g hg, hframe.mutex g hg]
      exact h.fits g
  · intro side g howner
    rcases hframe.owner side g howner with ⟨hold, hg⟩ | ⟨rfl, hself⟩
    · rw [hframe.pc g hg]
      exact h.owner side g hold
    · exact hself

theorem Frame.refl (h : s.Inv) : Frame s f s := by
  refine ⟨fun _ _ => rfl, fun _ _ => rfl, fun side g hg => ?_⟩
  by_cases hgf : g = f
  · exact Or.inr ⟨hgf, hgf ▸ h.owner side g hg⟩
  · exact Or.inl ⟨hg, hgf⟩

/-- `f` moves on and leaves the spin locks alone. -/
theorem Frame.move (h : s.Inv) (hnone : (s.pc f).holds = none) (pc : Pc F M)
    (hpc : t.pc = Function.update s.pc f pc) (hmutex : t.mutex.pc = s.mutex.pc)
    (howner : ∀ side, (t.cv side).owner = (s.cv side).owner) : Frame s f t := by
  refine ⟨fun g hg => ?_, fun g _ => congrFun hmutex g, fun side g hg => Or.inl ?_⟩
  · rw [hpc, Function.update_of_ne hg]
  · rw [howner side] at hg
    refine ⟨hg, ?_⟩
    rintro rfl
    cases hnone.symm.trans (h.owner side g hg)

theorem Frame.take (h : s.Inv) (hnone : (s.pc f).holds = none) (pc : Pc F M) {side : Side}
    (hpc : t.pc = Function.update s.pc f pc) (hmutex : t.mutex.pc = s.mutex.pc) (cv : CondVar F)
    (hcv : t.cv = Function.update s.cv side cv) (howner : cv.owner = some f) (hholds : pc.holds = some side) :
    Frame s f t := by
  refine ⟨fun g hg => ?_, fun g _ => congrFun hmutex g, fun side' g hg => ?_⟩
  · rw [hpc, Function.update_of_ne hg]
  · rw [hcv] at hg
    by_cases hside : side' = side
    · subst hside
      rw [Function.update_self, howner] at hg
      refine Or.inr ⟨(Option.some.inj hg).symm, ?_⟩
      rw [hpc, Function.update_self]
      exact hholds
    · rw [Function.update_of_ne hside] at hg
      refine Or.inl ⟨hg, ?_⟩
      rintro rfl
      cases hnone.symm.trans (h.owner side' g hg)

theorem Frame.release (h : s.Inv) {pc : Pc F M} {side : Side} (hheld : (s.pc f).holds = some side)
    (hpc : t.pc = Function.update s.pc f pc) (hmutex : t.mutex.pc = s.mutex.pc) (cv : CondVar F)
    (hcv : t.cv = Function.update s.cv side cv) (howner : cv.owner = none) : Frame s f t := by
  refine ⟨fun g hg => ?_, fun g _ => congrFun hmutex g, fun side' g hg => Or.inl ?_⟩
  · rw [hpc, Function.update_of_ne hg]
  · rw [hcv] at hg
    by_cases hside : side' = side
    · subst hside
      rw [Function.update_self, howner] at hg
      cases hg
    · rw [Function.update_of_ne hside] at hg
      refine ⟨hg, ?_⟩
      rintro rfl
      exact hside (Option.some.inj ((h.owner side' g hg).symm.trans hheld))

theorem callMutex_eq {l : CoMutex.Label F} (h : s.callMutex this l = some t) :
    ∃ mutex, s.mutex.step this l = some mutex ∧ t = { s with mutex := mutex } := by
  obtain ⟨mutex, hstep, rfl⟩ := Option.map_eq_some_iff.mp h
  exact ⟨mutex, hstep, rfl⟩

theorem Frame.inv_callMutex {u : State F M} {l : CoMutex.Label F} (hframe : Frame s f u) (h : s.Inv)
    (hl : l.fiber = f) (hstep : u.callMutex this l = some t)
    (hfits : ∀ mutex, u.mutex.step this l = some mutex → Fits (u.pc f) (mutex.pc f)) : t.Inv := by
  obtain ⟨mutex, hmutex, rfl⟩ := callMutex_eq hstep
  refine Frame.inv ⟨hframe.pc, fun g hg => ?_, hframe.owner⟩ h (hfits mutex hmutex)
  rw [← hframe.mutex g hg]
  exact CoMutex.State.pc_step_of_ne hmutex (hl ▸ hg)

omit [DecidableEq F] in
theorem owner_setCv (side : Side) (cv : CondVar F) (hcv : cv.owner = (s.cv side).owner)
    (side' : Side) :
    ((s.setCv side cv).cv side').owner = (s.cv side').owner := by
  by_cases hside : side' = side
  · subst hside
    simp only [setCv, Function.update_self, hcv]
  · simp only [setCv, Function.update_of_ne hside]

theorem inv_leave {u : State F M} {result : Bool} (h : s.Inv)
    (hframe : Frame s f { u.goto f .leaving with returned := Function.update u.returned f (some result) })
    (hstep : u.leave this f result = some t) : t.Inv := by
  refine hframe.inv_callMutex h rfl hstep fun mutex _ => ?_
  rw [show ({ u.goto f .leaving with returned := Function.update u.returned f (some result) } :
    State F M).pc f = .leaving from Function.update_self _ _ _]
  trivial

theorem inv_beginWait {op : Op M} (h : s.Inv) (hnone : (s.pc f).holds = none)
    (hstep : s.beginWait this f op = some t) : t.Inv := by
  rw [beginWait] at hstep
  split at hstep
  · refine Frame.inv_callMutex ?_ h rfl hstep fun mutex hmutex => ?_
    · exact .take h hnone (.inserted op) rfl rfl _ rfl rfl rfl
    · have hpc : Function.update s.pc f (.inserted op) f = .inserted op := Function.update_self _ _ _
      change Fits (Function.update s.pc f (.inserted op) f) (mutex.pc f)
      rw [hpc]
      exact CoMutex.State.unlocks_unlock hmutex
  · cases hstep

theorem inv_goto {pc : Pc F M} (h : s.Inv) (hnone : (s.pc f).holds = none)
    (hpc : t.pc = Function.update s.pc f pc) (hmutex : t.mutex.pc = s.mutex.pc)
    (howner : ∀ side, (t.cv side).owner = (s.cv side).owner) (hfits : Fits pc (s.mutex.pc f)) :
    t.Inv := by
  refine (Frame.move h hnone pc hpc hmutex howner).inv h ?_
  rw [hpc, hmutex, Function.update_self]
  exact hfits

theorem inv_test {op : Op M} (h : s.Inv) (hnone : (s.pc f).holds = none)
    (hstep : s.test this f op = some t) : t.Inv := by
  unfold test at hstep
  split at hstep
  · exact inv_leave h (.move h hnone .leaving rfl rfl fun _ => rfl) hstep
  · cases op with
    | push t =>
        simp only at hstep
        split at hstep
        · exact inv_beginWait h hnone hstep
        · cases hstep
          exact inv_goto h hnone rfl rfl (fun _ => rfl) trivial
    | pop =>
        simp only at hstep
        split at hstep
        · exact inv_beginWait h hnone hstep
        · cases hstep
          exact inv_goto h hnone rfl rfl (fun _ => rfl) trivial
    | waitFor timed =>
        simp only at hstep
        split at hstep
        · exact inv_beginWait h hnone hstep
        · cases hstep
          exact inv_goto h hnone rfl rfl (fun _ => rfl) trivial
    | close =>
        cases hstep
        exact inv_goto h hnone rfl rfl (fun _ => rfl) trivial

theorem inv_exec {first : Option F} (h : s.Inv) (hidle : s.mutex.pc f = .idle)
    (hstep : s.exec this f first = some t) : t.Inv := by
  cases hpc : s.pc f with
  | idle => simp [exec, hpc] at hstep
  | parked op => simp [exec, hpc] at hstep
  | entered op =>
      simp only [exec, hpc] at hstep
      exact inv_test h (by rw [hpc]; rfl) hstep
  | inserted op =>
      simp only [exec, hpc, Option.some.injEq] at hstep
      subst hstep
      have hframe : Frame s f ((s.goto f (.yielding op)).setCv op.waitsOn
          { s.cv op.waitsOn with owner := none }) :=
        .release h (by rw [hpc]; rfl) rfl rfl _ rfl rfl
      refine hframe.inv h ?_
      change Fits (Function.update s.pc f (.yielding op) f) _
      rw [Function.update_self]
      trivial
  | yielding op =>
      simp only [exec, hpc] at hstep
      split at hstep
      · cases hstep
      · cases hstep
        exact inv_goto h (by rw [hpc]; rfl) rfl rfl (fun _ => rfl) trivial
      · cases hstep
        exact inv_goto h (by rw [hpc]; rfl) rfl rfl (fun _ => rfl) hidle
  | woken op =>
      simp only [exec, hpc] at hstep
      have hnone : (s.pc f).holds = none := by
        rw [hpc]
        rfl
      split at hstep
      · split at hstep
        · refine Frame.inv_callMutex ?_ h rfl hstep fun mutex hmutex => ?_
          · exact .take h hnone (.relocked op) rfl rfl _ rfl rfl rfl
          · change Fits (Function.update s.pc f (.relocked op) f) (mutex.pc f)
            rw [Function.update_self]
            exact CoMutex.State.tries_lock hmutex
        · cases hstep
      · refine Frame.inv_callMutex ?_ h rfl hstep fun mutex _ => ?_
        · exact .move h hnone (.entered op) rfl rfl fun _ => rfl
        · change Fits (Function.update s.pc f (.entered op) f) (mutex.pc f)
          rw [Function.update_self]
          trivial
  | relocked op =>
      simp only [exec, hpc, Option.some.injEq] at hstep
      subst hstep
      have hframe : Frame s f ((s.goto f (.returning op (!s.timeCondition f))).setCv op.waitsOn
          { s.cv op.waitsOn with owner := none }) :=
        .release h (by rw [hpc]; rfl) rfl rfl _ rfl rfl
      refine hframe.inv h ?_
      change Fits (Function.update s.pc f (.returning op (!s.timeCondition f)) f) _
      rw [Function.update_self]
      trivial
  | returning op result =>
      simp only [exec, hpc] at hstep
      have hnone : (s.pc f).holds = none := by
        rw [hpc]
        rfl
      split at hstep
      · cases hstep
        exact inv_goto h hnone rfl rfl (fun _ => rfl) trivial
      · exact inv_leave h (.move h hnone .leaving rfl rfl fun _ => rfl) hstep
  | notifying side =>
      simp only [exec, hpc] at hstep
      have hnone : (s.pc f).holds = none := by
        rw [hpc]
        rfl
      split at hstep
      · split at hstep
        · split at hstep
          · cases hstep
            exact inv_goto h hnone rfl rfl (fun _ => rfl) trivial
          · cases hstep
        · split at hstep
          · cases hstep
            exact inv_goto h hnone rfl rfl (owner_setCv _ _ rfl) trivial
          · cases hstep
      · cases hstep
  | submitting next =>
      simp only [exec, hpc] at hstep
      refine inv_leave h ?_ hstep
      exact .move h (by rw [hpc]; rfl) .leaving rfl rfl fun _ => rfl
  | notifyingAll side =>
      have hnone : (s.pc f).holds = none := by
        rw [hpc]
        rfl
      cases side with
      | pushCv =>
          simp only [exec, hpc] at hstep
          split at hstep
          · cases hstep
            exact inv_goto h hnone rfl rfl (owner_setCv _ _ rfl) trivial
          · cases hstep
      | popCv =>
          simp only [exec, hpc] at hstep
          split at hstep
          · refine inv_leave h ?_ hstep
            exact .move h hnone .leaving rfl rfl (owner_setCv _ _ rfl)
          · cases hstep
  | leaving =>
      simp only [exec, hpc, Option.some.injEq] at hstep
      subst hstep
      exact inv_goto h (by rw [hpc]; rfl) rfl rfl (fun _ => rfl) trivial

theorem inv_resume (h : s.Inv) (hstep : s.step this (.resume f) = some t) : t.Inv := by
  simp only [step] at hstep
  split at hstep
  · next op hpc =>
    split at hstep
    · cases hstep
      exact inv_goto h (by rw [hpc]; rfl) rfl rfl (fun _ => rfl) trivial
    · cases hstep
  · refine Frame.inv_callMutex (f := f) (.refl h) h rfl hstep fun mutex hmutex => ?_
    have hparked := CoMutex.State.parked_of_resume hmutex
    have hfits := h.fits f
    rw [hparked] at hfits
    generalize s.pc f = pc at hfits ⊢
    -- nobody sleeps in the mutex where the place of the fiber says anything about it
    cases pc with
    | inserted op | relocked op | parked op => cases hfits
    | idle | leaving => trivial
    | entered op | yielding op | woken op | returning op result => trivial
    | notifying side | notifyingAll side | submitting next => trivial

theorem inv_timeout (h : s.Inv) (hstep : s.step this (.timeout f) = some t) : t.Inv := by
  have hfree : ∀ op : Op M,
      (if op.timed = true ∧ s.timeCondition f = false ∧ (s.cv op.waitsOn).owner = none then
      some { s.setCv op.waitsOn { s.cv op.waitsOn with waitQueue := (s.cv op.waitsOn).waitQueue.erase f }
        with timeCondition := Function.update s.timeCondition f true
             mutex := { s.mutex with ready := s.mutex.ready ++ [f] } }
      else none) = some t → t.Inv := by
    intro op hstep
    split at hstep
    · cases hstep
      refine ⟨h.fits, fun side g hg => h.owner side g ?_⟩
      have hsame := owner_setCv (s := s) op.waitsOn
        { s.cv op.waitsOn with waitQueue := (s.cv op.waitsOn).waitQueue.erase f } rfl side
      exact hsame.symm.trans hg
    · cases hstep
  simp only [step] at hstep
  split at hstep
  · exact hfree _ hstep
  · exact hfree _ hstep
  · exact hfree _ hstep
  · exact hfree _ hstep
  · exact hfree _ hstep
  · exact hfree _ hstep
  · cases hstep

theorem inv_advanceMutex {first : Option F} (h : s.Inv) (hrelocks : s.Relocks (.advance f first))
    (hstep : s.callMutex this (.advance f) = some t) : t.Inv := by
  refine Frame.inv_callMutex (f := f) (.refl h) h rfl hstep fun mutex hmutex => ?_
  have hfits := h.fits f
  have hfree : (s.pc f).isRelocked = true → s.mutex.pc f = .tryInner → s.mutex.mutex = false := hrelocks
  generalize s.pc f = pc at hfits hfree ⊢
  cases pc with
  | inserted op => exact CoMutex.State.unlocks_advance hfits hmutex
  | relocked op => exact CoMutex.State.tries_advance hfits (hfree rfl) hmutex
  | parked op =>
      simp [CoMutex.State.step, CoMutex.State.advance, show s.mutex.pc f = .idle from hfits] at hmutex
  | idle | leaving => trivial
  | entered op | yielding op | woken op | returning op result => trivial
  | notifying side | notifyingAll side | submitting next => trivial

theorem inv_step {l : Label F M} (h : s.Inv) (hrelocks : s.Relocks l) (hstep : s.Step this l t) :
    t.Inv := by
  rw [Step] at hstep
  cases l with
  | call f op =>
      simp only [step] at hstep
      split at hstep
      · next hpc =>
        refine Frame.inv_callMutex (f := f) ?_ h rfl hstep fun mutex _ => ?_
        · exact .move h (by rw [hpc]; rfl) (.entered op) rfl rfl fun _ => rfl
        · change Fits (Function.update s.pc f (.entered op) f) (mutex.pc f)
          rw [Function.update_self]
          trivial
      · cases hstep
  | advance f first =>
      simp only [step] at hstep
      split at hstep
      · next hidle => exact inv_exec h hidle hstep
      · exact inv_advanceMutex h hrelocks hstep
  | resume f => exact inv_resume h hstep
  | timeout f => exact inv_timeout h hstep

/-- In every run in which `waitFor` takes the mutex back without queueing for it, no fiber is parked with
a spin lock. -/
theorem noParkedSpinner_of_relocks {F M : Type} [DecidableEq F] (this : F → This) (s : State F M)
    (hreach : Reachable (Guarded Relocks (Step this)) New s) : s.NoParkedSpinner := by
  have hinv : s.Inv := by
    refine hreach.invariant (fun _ => inv_of_new) ?_
    rintro s l t h ⟨hrelocks, hstep⟩
    exact inv_step h hrelocks hstep
  exact hinv.noParkedSpinner

section Examples

open CoMutex.State (twoFibers newMutex free_newMutex)

def newChannel : State Bool Nat :=
  { mutex := newMutex, cv := fun _ => { owner := none, waitQueue := [] }, isClosed := false,
    capacity := 1, msgQueue := [], pc := fun _ => .idle, timeCondition := fun _ => false,
    returned := fun _ => none, out := fun _ => none }

theorem new_newChannel : New newChannel :=
  ⟨free_newMutex, fun _ => rfl, fun _ => rfl, rfl, rfl, fun _ => rfl⟩

def advance (f : Bool) (n : Nat) : List (Label Bool Nat) := List.replicate n (.advance f none)

/-- A fiber waits with a timeout, and the other one pushes and notifies it. -/
def notified : List (Label Bool Nat) :=
  [.call false (.waitFor true)] ++ advance false 11 ++ [.call true (.push 7)] ++ advance true 3 ++
    [.advance true (some false)] ++ advance true 1

/-- The waiter runs again once the other fiber has left. -/
def relocksLater : List (Label Bool Nat) :=
  notified ++ advance true 7 ++ [.resume false] ++ advance false 3

theorem noParkedSpinner_of_relocks_later :
    ∃ s : State Bool Nat, Reachable (Guarded Relocks (Step twoFibers)) New s ∧
      s.pc false = .relocked (.waitFor true) ∧ (s.cv .popCv).owner = some false ∧
        s.NoParkedSpinner := by
  obtain ⟨s, hrun, hvalue⟩ : ∃ s,
      relocksLater.foldlM (guarded Relocks (step twoFibers)) newChannel = some s ∧
        (s.pc false, (s.cv .popCv).owner) = (.relocked (.waitFor true), some false) :=
    Option.map_eq_some_iff.mp (by decide)
  have hreach : Reachable (Guarded Relocks (Step twoFibers)) New s :=
    .of_run guarded_step (.start new_newChannel) hrun
  obtain ⟨hpc, howner⟩ := Prod.mk.inj hvalue
  exact ⟨s, hreach, hpc, howner, noParkedSpinner_of_relocks twoFibers s hreach⟩

/-- The waiter runs again before the other fiber has unlocked. -/
def relocksEarly : List (Label Bool Nat) := notified ++ [.resume false] ++ advance false 7

theorem not_noParkedSpinner_early :
    ∃ s : State Bool Nat, Reachable (Step twoFibers) New s ∧ ¬ s.NoParkedSpinner := by
  obtain ⟨s, hrun, hvalue⟩ : ∃ s, relocksEarly.foldlM (step twoFibers) newChannel = some s ∧
      (s.mutex.pc false, (s.cv .popCv).owner) = (.parked, some false) :=
    Option.map_eq_some_iff.mp (by decide)
  obtain ⟨hparked, howner⟩ := Prod.mk.inj hvalue
  refine ⟨s, .of_run (fun _ _ _ hstep => hstep) (.start new_newChannel) hrun, ?_⟩
  intro hnone
  exact hnone false (Or.inl hparked) (Or.inr ⟨.popCv, howner⟩)

end Examples

end State

end AsyncRPC.Channel
