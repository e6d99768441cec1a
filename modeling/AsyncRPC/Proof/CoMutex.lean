import AsyncRPC.CoMutex
import AsyncRPC.Lib.Token

/-!
# Mutual exclusion of `CoMutex`

`mutex_` is a token: a fiber owns it from the `trylock` that succeeds to the release in its outermost
`unlock`. The token says nothing about fibers that go in without it, through the comparison with
`fiber_id_`, nor after an inner `unlock` has released it under the fiber that is inside.
-/

namespace AsyncRPC.CoMutex

open Transition Token

variable {F : Type} [DecidableEq F] {this : F → This} {s t : State F} {f : F} {l : Label F}

/-- Whether a fiber in a call has `mutex_`: not by the call, since its `trylock`, or until the release
in `unlock`. -/
inductive Stage
  | away
  | taken
  | leaving
  deriving DecidableEq

def Pc.stage : Pc F → Stage
  | .setId => .taken
  | .unlockGuard | .clearId | .pop | .release _ => .leaving
  | _ => .away

namespace State

def Owns (s : State F) (f : F) : Prop := s.Inside f ∨ (s.pc f).stage ≠ .away

structure Inv (s : State F) : Prop where
  sole : Sole s.Owns s.mutex
  leaving : ∀ f, (s.pc f).stage = .leaving → s.depth f = 0

section Effect

/-- What a step of `f` does to `mutex_` and its owners: nothing, or `f` takes it, or releases it. -/
structure Effect (s : State F) (f : F) (t : State F) : Prop where
  pc : ∀ g, g ≠ f → t.pc g = s.pc g
  depth : ∀ g, g ≠ f → t.depth g = s.depth g
  leaving : (t.pc f).stage = .leaving → t.depth f = 0
  token : (t.mutex = s.mutex ∧ (t.Owns f → s.Owns f)) ∨ (s.mutex = false ∧ t.mutex = true) ∨
    (s.Owns f ∧ ¬ t.Owns f ∧ t.mutex = false)

/-- A step that leaves `mutex_` and the depth alone and does not begin to hold. -/
theorem Effect.goto (h : s.Inv) {old new : Pc F} (hold : s.pc f = old)
    (hpc : t.pc = Function.update s.pc f new) (hdepth : t.depth = s.depth)
    (hmutex : t.mutex = s.mutex) (hstage : new.stage = old.stage) : Effect s f t := by
  have hnew : t.pc f = new := by
    rw [hpc, Function.update_self]
  refine ⟨?_, fun _ _ => by rw [hdepth], ?_, Or.inl ⟨hmutex, ?_⟩⟩
  · intro g hg
    rw [hpc, Function.update_of_ne hg]
  · intro hleave
    rw [hnew, hstage, ← hold] at hleave
    rw [hdepth]
    exact h.leaving f hleave
  · rintro (hinside | hholding)
    · rw [Inside, hdepth] at hinside
      exact Or.inl hinside
    · rw [hnew, hstage, ← hold] at hholding
      exact Or.inr hholding

theorem Effect.trylock (h : s.Inv) {old other : Pc F} (hold : s.pc f = old)
    (hstage : other.stage = old.stage) : Effect s f (s.trylock f other) := by
  rw [State.trylock]
  split
  · exact .goto h hold rfl rfl rfl hstage
  · next hfree =>
    refine ⟨fun g hg => Function.update_of_ne hg _ _, fun _ _ => rfl, ?_, Or.inr (Or.inl ?_)⟩
    · intro hleave
      rw [show ({ s.goto f .setId with mutex := true } : State F).pc f = .setId from
        Function.update_self _ _ _] at hleave
      cases hleave
    · exact ⟨Bool.not_eq_true _ ▸ hfree, rfl⟩

theorem Effect.lockGuard (h : s.Inv) {old new : Pc F} (hold : s.pc f = old)
    (hstep : s.lockGuard f new = some t) (hstage : new.stage = old.stage) : Effect s f t := by
  rw [State.lockGuard] at hstep
  split at hstep
  · cases hstep
  · cases hstep
    exact .goto h hold rfl rfl rfl hstage

/-- `lock` returns to a fiber that owns `mutex_`. -/
theorem Effect.enter (howns : s.Owns f) (hpc : t.pc = Function.update s.pc f .idle)
    (hdepth : t.depth = Function.update s.depth f (s.depth f + 1)) (hmutex : t.mutex = s.mutex) :
    Effect s f t := by
  refine ⟨?_, ?_, ?_, Or.inl ⟨hmutex, fun _ => howns⟩⟩
  · intro g hg
    rw [hpc, Function.update_of_ne hg]
  · intro g hg
    rw [hdepth, Function.update_of_ne hg]
  · intro hleave
    rw [hpc, Function.update_self] at hleave
    cases hleave

theorem Effect.release (h : s.Inv) {next : Option F} (hold : s.pc f = .release next) :
    Effect s f { s.goto f (.guardRelease next) with mutex := false } := by
  have hnew : ({ s.goto f (.guardRelease next) with mutex := false } : State F).pc f
      = .guardRelease next := Function.update_self _ _ _
  have hzero : s.depth f = 0 := h.leaving f (by rw [hold]; rfl)
  refine ⟨fun g hg => Function.update_of_ne hg _ _, fun _ _ => rfl, fun _ => hzero, ?_⟩
  refine Or.inr (Or.inr ⟨Or.inr (by simp [hold, Pc.stage]), ?_, rfl⟩)
  rintro (hinside | hholding)
  · exact absurd hzero (Nat.ne_of_gt hinside)
  · rw [hnew] at hholding
    exact hholding rfl

theorem effect_advance (h : s.Inv) (hstep : s.advance this f = some t) : Effect s f t := by
  cases hpc : s.pc f with
  | idle => simp [advance, hpc] at hstep
  | parked => simp [advance, hpc] at hstep
  | tryOuter =>
      simp only [advance, hpc, Option.some.injEq] at hstep
      subst hstep
      exact .trylock h hpc rfl
  | tryInner =>
      simp only [advance, hpc, Option.some.injEq] at hstep
      subst hstep
      exact .trylock h hpc rfl
  | guardLock =>
      simp only [advance, hpc] at hstep
      exact .lockGuard h hpc hstep rfl
  | push =>
      simp only [advance, hpc] at hstep
      split at hstep
      · cases hstep
      · cases hstep
        exact .goto h hpc rfl rfl rfl rfl
  | guardUnlock =>
      simp only [advance, hpc, Option.some.injEq] at hstep
      subst hstep
      exact .goto h hpc rfl rfl rfl rfl
  | yield =>
      simp only [advance, hpc] at hstep
      split at hstep
      · cases hstep
      · cases hstep
        exact .goto h hpc rfl rfl rfl rfl
      · cases hstep
        exact .goto h hpc rfl rfl rfl rfl
  | setId =>
      simp only [advance, hpc, Option.some.injEq] at hstep
      subst hstep
      exact .enter (Or.inr (by simp [hpc, Pc.stage])) rfl rfl rfl
  | unlockGuard =>
      simp only [advance, hpc] at hstep
      exact .lockGuard h hpc hstep rfl
  | clearId =>
      simp only [advance, hpc, Option.some.injEq] at hstep
      subst hstep
      exact .goto h hpc rfl rfl rfl rfl
  | pop =>
      simp only [advance, hpc] at hstep
      split at hstep
      · cases hstep
        exact .goto h hpc rfl rfl rfl rfl
      · cases hstep
        exact .goto h hpc rfl rfl rfl rfl
  | release next =>
      simp only [advance, hpc, Option.some.injEq] at hstep
      subst hstep
      exact .release h hpc
  | guardRelease next =>
      simp only [advance, hpc, Option.some.injEq] at hstep
      subst hstep
      exact .goto h hpc rfl rfl rfl rfl
  | submit next =>
      simp only [advance, hpc, Option.some.injEq] at hstep
      subst hstep
      exact .goto h hpc rfl rfl rfl rfl

end Effect

theorem effect_step (h : s.Inv) (hcareful : s.Careful this l) (hstep : s.Step this l t) :
    Effect s l.fiber t := by
  rw [Step] at hstep
  cases l with
  | lock f =>
      simp only [step] at hstep
      split at hstep
      · next hidle =>
        cases hstep
        rw [State.lock]
        split
        · next hid =>
          -- the shortcut is open only to a fiber that is inside
          have hinside : s.depth f ≠ 0 := fun hzero => hcareful hzero hid
          exact .enter (Or.inl (Nat.pos_of_ne_zero hinside)) rfl rfl rfl
        · exact .goto h hidle rfl rfl rfl rfl
      · cases hstep
  | unlock f =>
      simp only [step] at hstep
      split at hstep
      · next henabled =>
        cases hstep
        refine ⟨fun g hg => Function.update_of_ne hg _ _, fun g hg => Function.update_of_ne hg _ _, ?_,
          Or.inl ⟨rfl, fun _ => Or.inl henabled.2⟩⟩
        intro _
        have hlast : s.depth f = 1 := hcareful
        change Function.update s.depth f (s.depth f - 1) f = 0
        rw [Function.update_self, hlast]
      · cases hstep
  | advance f => exact effect_advance h hstep
  | resume f =>
      simp only [step] at hstep
      split at hstep
      · next hparked =>
        cases hstep
        exact .goto h hparked.1 rfl rfl rfl rfl
      · cases hstep

omit [DecidableEq F] in
theorem inv_of_free (h : Free s) : s.Inv := by
  refine ⟨Sole.free ?_, ?_⟩
  · rintro f (hinside | hholding)
    · exact absurd (h.depth f) (Nat.ne_of_gt hinside)
    · exact hholding (by rw [h.pc f]; rfl)
  · intro f _
    exact h.depth f

omit [DecidableEq F] in
theorem Effect.owns_of_ne (h : Effect s f t) {g : F} (hg : g ≠ f) (howns : t.Owns g) : s.Owns g := by
  rw [Owns, Inside, h.pc g hg, h.depth g hg] at howns
  exact howns

theorem Effect.inv (h : s.Inv) (heffect : Effect s f t) : t.Inv := by
  constructor
  · rcases heffect.token with ⟨hmutex, hself⟩ | ⟨hfree, htaken⟩ | ⟨howns, hgone, hmutex⟩
    · rw [hmutex]
      refine h.sole.mono fun g howns => ?_
      by_cases hg : g = f
      · subst hg
        exact hself howns
      · exact heffect.owns_of_ne hg howns
    · rw [htaken]
      have hsole := h.sole
      rw [hfree] at hsole
      exact hsole.take fun g hg => heffect.owns_of_ne hg
    · rw [hmutex]
      exact h.sole.release howns hgone fun g hg => heffect.owns_of_ne hg
  · intro g hleave
    by_cases hg : g = f
    · subst hg
      exact heffect.leaving hleave
    · rw [heffect.pc g hg] at hleave
      rw [heffect.depth g hg]
      exact h.leaving g hleave

/-- In every run of careful calls at most one fiber is inside. -/
theorem exclusive_of_careful {F : Type} [DecidableEq F] (this : F → This) (s : State F)
    (hreach : Reachable (Guarded (Careful this) (Step this)) Free s) : s.Exclusive := by
  have hinv : s.Inv := by
    refine hreach.invariant (fun _ => inv_of_free) ?_
    rintro s l t h ⟨hcareful, hstep⟩
    exact (effect_step h hcareful hstep).inv h
  intro f g hf hg
  exact hinv.sole.unique f g (Or.inl hf) (Or.inl hg)

section Examples

def twoFibers (f : Bool) : This := .fiber (if f then 2 else 1)

def newMutex : State Bool :=
  { mutex := false, guard := false, fiberId := 0, waitQueue := [], ready := [],
    pc := fun _ => .idle, depth := fun _ => 0 }

theorem free_newMutex : Free newMutex := ⟨rfl, rfl, rfl, rfl, fun _ => rfl, fun _ => rfl⟩

/-- The second fiber finds the mutex taken and parks, and the first one leaves. -/
def handOver : List (Label Bool) :=
  [.lock false, .advance false, .advance false, .lock true] ++ List.replicate 6 (.advance true) ++
    [.unlock false] ++ List.replicate 6 (.advance false) ++ [.resume true, .advance true, .advance true]

theorem exclusive_of_careful_handOver :
    ∃ s, Reachable (Guarded (Careful twoFibers) (Step twoFibers)) Free s ∧ s.depth true = 1 ∧
      s.waitQueue = [] ∧ s.Exclusive := by
  obtain ⟨s, hrun, hvalue⟩ : ∃ s,
      handOver.foldlM (guarded (Careful twoFibers) (step twoFibers)) newMutex = some s ∧
        (s.depth true, s.waitQueue) = (1, []) :=
    Option.map_eq_some_iff.mp (by decide)
  have hreach : Reachable (Guarded (Careful twoFibers) (Step twoFibers)) Free s :=
    .of_run guarded_step (.start free_newMutex) hrun
  obtain ⟨hdepth, hqueue⟩ := Prod.mk.inj hvalue
  exact ⟨s, hreach, hdepth, hqueue, exclusive_of_careful twoFibers s hreach⟩

/-- A fiber locks twice and unlocks once, and the other fiber locks. -/
def innerUnlock : List (Label Bool) :=
  [.lock false, .advance false, .advance false, .lock false, .unlock false] ++
    List.replicate 6 (.advance false) ++ [.lock true, .advance true, .advance true]

/-- The inner `unlock` frees the mutex for the other fiber while the first is still inside. -/
theorem not_exclusive_inner_unlock :
    ∃ s, Reachable (Step twoFibers) Free s ∧ ¬ s.Exclusive := by
  obtain ⟨s, hrun, hvalue⟩ : ∃ s, innerUnlock.foldlM (step twoFibers) newMutex = some s ∧
      (s.depth false, s.depth true) = (1, 1) :=
    Option.map_eq_some_iff.mp (by decide)
  obtain ⟨hfirst, hsecond⟩ := Prod.mk.inj hvalue
  refine ⟨s, .of_run (fun _ _ _ hstep => hstep) (.start free_newMutex) hrun, ?_⟩
  intro hexclusive
  have hsame := hexclusive false true (by rw [Inside, hfirst]; decide) (by rw [Inside, hsecond]; decide)
  cases hsame

end Examples

end State

end AsyncRPC.CoMutex
