import AsyncRPC.Proof.CoMutex

/-!
# Lost wake-ups of `CoMutex`

While a fiber is on the wait queue and the mutex is free there is a rouser: a fiber that was woken and
is still to run, one that is about to try the mutex again, or an `unlock` that has taken a fiber from
the queue and not submitted it yet. Only a push behind the back of the last `unlock` breaks this.
`guard_` is a token, which keeps pushes out between the pop and the release in `unlock`.
-/

namespace AsyncRPC.CoMutex

open Transition Token

variable {F : Type} {this : F → This} {s t : State F} {f : F} {old new : Pc F}

def Pc.rouses : Pc F → Bool
  | .tryOuter | .tryInner | .guardLock | .push => true
  | .release next | .guardRelease next | .submit next => next.isSome
  | _ => false

theorem Pc.rouses_quiet {pc : Pc F} (h : pc = .idle ∨ pc = .parked) : pc.rouses = false := by
  rcases h with rfl | rfl
  · rfl
  · rfl

namespace State

/-- The mutex is taken or there is a rouser. -/
def Hope (s : State F) : Prop :=
  s.mutex = true ∨ s.ready ≠ [] ∨ ∃ f, (s.pc f).rouses = true

structure Wakes (s : State F) : Prop where
  guard : Sole (fun f => (s.pc f).hasGuard = true) s.guard
  popped : ∀ f, s.pc f = .release none → s.waitQueue = []
  hope : s.waitQueue ≠ [] → s.Hope

theorem Wakes.not_lostWakeup (h : s.Wakes) : ¬ s.LostWakeup := by
  rintro ⟨hmutex, ⟨f, hf, -⟩, hquiet, hready⟩
  rcases h.hope (List.ne_nil_of_mem hf) with htaken | hwoken | ⟨g, hg⟩
  · rw [hmutex] at htaken
    cases htaken
  · exact hwoken hready
  · rw [Pc.rouses_quiet (hquiet g)] at hg
    cases hg

theorem wakes_of_free (h : Free s) : s.Wakes where
  guard := Sole.free fun f => by simp [h.pc f, Pc.hasGuard]
  popped := fun _ _ => h.waitQueue
  hope := fun hqueue => absurd h.waitQueue hqueue

variable [DecidableEq F]

structure Moves (s : State F) (f : F) (old new : Pc F) (t : State F) : Prop where
  before : s.pc f = old
  after : t.pc = Function.update s.pc f new

theorem Moves.self (h : Moves s f old new t) : t.pc f = new := by
  rw [h.after, Function.update_self]

theorem Moves.other (h : Moves s f old new t) {g : F} (hg : g ≠ f) : t.pc g = s.pc g := by
  rw [h.after, Function.update_of_ne hg]

/-- The fiber that moves stays a rouser, if it was one. -/
theorem Hope.moves (hope : s.Hope) (h : Moves s f old new t) (hmutex : t.mutex = s.mutex)
    (hready : s.ready ≠ [] → t.ready ≠ []) (hrouses : old.rouses = true → t.Hope) : t.Hope := by
  rcases hope with htaken | hwoken | ⟨g, hg⟩
  · exact Or.inl (hmutex.trans htaken)
  · exact Or.inr (Or.inl (hready hwoken))
  · by_cases hgf : g = f
    · subst hgf
      rw [h.before] at hg
      exact hrouses hg
    · exact Or.inr (Or.inr ⟨g, (h.other hgf).symm ▸ hg⟩)

theorem Moves.hope (h : Moves s f old new t) (hnew : new.rouses = true) : t.Hope :=
  Or.inr (Or.inr ⟨f, h.self.symm ▸ hnew⟩)

section Guard

theorem Moves.guard_of_ne (h : Moves s f old new t) {g : F} (hg : g ≠ f)
    (howns : (t.pc g).hasGuard = true) : (s.pc g).hasGuard = true := by
  rwa [h.other hg] at howns

/-- What a move does to `guard_`: nothing, or it takes it, or releases it. -/
def Guards (s : State F) (old new : Pc F) (t : State F) : Prop :=
  (t.guard = s.guard ∧ (new.hasGuard = true → old.hasGuard = true)) ∨
    (s.guard = false ∧ t.guard = true) ∨
    (old.hasGuard = true ∧ new.hasGuard = false ∧ t.guard = false)

theorem Moves.sole (h : Moves s f old new t) (hs : s.Wakes) (hguard : Guards s old new t) :
    Sole (fun f => (t.pc f).hasGuard = true) t.guard := by
  rcases hguard with ⟨hsame, hkeep⟩ | ⟨hfree, htaken⟩ | ⟨hold, hnew, hfree⟩
  · rw [hsame]
    refine hs.guard.mono fun g howns => ?_
    by_cases hg : g = f
    · subst hg
      rw [h.self] at howns
      rw [h.before]
      exact hkeep howns
    · exact h.guard_of_ne hg howns
  · rw [htaken]
    have hsole := hs.guard
    rw [hfree] at hsole
    exact hsole.take fun g hg => h.guard_of_ne hg
  · rw [hfree]
    refine hs.guard.release (p := f) ?_ ?_ fun g hg => h.guard_of_ne hg
    · rw [h.before, hold]
    · rw [h.self, hnew]
      exact Bool.false_ne_true

end Guard

/-- A move that leaves the queue alone. -/
theorem Wakes.moves (hs : s.Wakes) (h : Moves s f old new t) (hguard : Guards s old new t)
    (hqueue : t.waitQueue = s.waitQueue) (hpopped : new = .release none → s.waitQueue = [])
    (hope : s.Hope → t.Hope) : t.Wakes where
  guard := h.sole hs hguard
  popped := by
    intro g hg
    rw [hqueue]
    by_cases hgf : g = f
    · subst hgf
      rw [h.self] at hg
      exact hpopped hg
    · rw [h.other hgf] at hg
      exact hs.popped g hg
  hope := by
    rw [hqueue]
    exact fun hne => hope (hs.hope hne)

section Steps

/-- A move that leaves the queue, `guard_`, the mutex and the scheduler alone. -/
theorem Wakes.goto (hs : s.Wakes) (hold : s.pc f = old) (hpc : t.pc = Function.update s.pc f new)
    (hguard : new.hasGuard = true → old.hasGuard = true)
    (hpopped : new = .release none → s.waitQueue = [])
    (hrouses : old.rouses = true → new.rouses = true)
    (hsame : t.guard = s.guard ∧ t.waitQueue = s.waitQueue ∧ t.mutex = s.mutex ∧
      t.ready = s.ready) : t.Wakes := by
  obtain ⟨hsameGuard, hqueue, hmutex, hready⟩ := hsame
  have hmoves : Moves s f old new t := ⟨hold, hpc⟩
  refine hs.moves hmoves (Or.inl ⟨hsameGuard, hguard⟩) hqueue hpopped fun hope => ?_
  exact hope.moves hmoves hmutex (fun hne => hready ▸ hne) fun h => hmoves.hope (hrouses h)

theorem Wakes.trylock (hs : s.Wakes) {other : Pc F} (hold : s.pc f = old)
    (hguard : other.hasGuard = false) (hpopped : other ≠ .release none)
    (hother : other.rouses = true) : (s.trylock f other).Wakes := by
  rw [State.trylock]
  split
  · refine hs.goto hold rfl ?_ (fun h => absurd h hpopped) (fun _ => hother) ⟨rfl, rfl, rfl, rfl⟩
    rw [hguard]
    exact fun h => by cases h
  · have hmoves : Moves s f old .setId { s.goto f .setId with mutex := true } := ⟨hold, rfl⟩
    exact hs.moves hmoves (Or.inl ⟨rfl, fun h => by cases h⟩) rfl (fun h => by cases h)
      fun _ => Or.inl rfl

theorem Wakes.lockGuard (hs : s.Wakes) (hold : s.pc f = old) (hstep : s.lockGuard f new = some t)
    (hpopped : new ≠ .release none) (hrouses : old.rouses = true → new.rouses = true) : t.Wakes := by
  rw [State.lockGuard] at hstep
  split at hstep
  · cases hstep
  · next hfree =>
    cases hstep
    have hmoves : Moves s f old new { s.goto f new with guard := true } := ⟨hold, rfl⟩
    refine hs.moves hmoves (Or.inr (Or.inl ⟨?_, rfl⟩)) rfl (fun h => absurd h hpopped) fun hope => ?_
    · exact Bool.not_eq_true _ ▸ hfree
    · exact hope.moves hmoves rfl id fun h => hmoves.hope (hrouses h)

theorem Wakes.unlockGuard (hs : s.Wakes) (hold : s.pc f = old) (hguard : old.hasGuard = true)
    (hnew : new.hasGuard = false) (hpopped : new ≠ .release none)
    (hrouses : old.rouses = true → new.rouses = true) :
    ({ s.goto f new with guard := false } : State F).Wakes := by
  have hmoves : Moves s f old new { s.goto f new with guard := false } := ⟨hold, rfl⟩
  refine hs.moves hmoves (Or.inr (Or.inr ⟨hguard, hnew, rfl⟩)) rfl (fun h => absurd h hpopped) ?_
  exact fun hope => hope.moves hmoves rfl id fun h => hmoves.hope (hrouses h)

theorem Wakes.push (hs : s.Wakes) (hold : s.pc f = .push) (hmutex : s.mutex = true) :
    ({ s.goto f .guardUnlock with waitQueue := s.waitQueue ++ [f] } : State F).Wakes := by
  have hmoves : Moves s f .push .guardUnlock
      { s.goto f .guardUnlock with waitQueue := s.waitQueue ++ [f] } := ⟨hold, rfl⟩
  refine ⟨hmoves.sole hs (Or.inl ⟨rfl, fun _ => rfl⟩), ?_, fun _ => Or.inl hmutex⟩
  intro g hg
  -- the fiber that pushes has `guard_`, so no other is between its pop and its release
  have hgf : g ≠ f := by
    rintro rfl
    rw [hmoves.self] at hg
    cases hg
  rw [hmoves.other hgf] at hg
  exact absurd (hs.guard.unique g f (by rw [hg]; rfl) (by rw [hold]; rfl)) hgf

theorem Wakes.pop (hs : s.Wakes) {next : F} {rest : List F} (hold : s.pc f = .pop)
    (hqueue : s.waitQueue = next :: rest) :
    ({ s.goto f (.release (some next)) with waitQueue := rest } : State F).Wakes := by
  have hmoves : Moves s f .pop (.release (some next))
      { s.goto f (.release (some next)) with waitQueue := rest } := ⟨hold, rfl⟩
  refine ⟨hmoves.sole hs (Or.inl ⟨rfl, fun _ => rfl⟩), ?_, fun _ => hmoves.hope rfl⟩
  intro g hg
  have hgf : g ≠ f := by
    rintro rfl
    rw [hmoves.self] at hg
    cases hg
  rw [hmoves.other hgf] at hg
  have hempty := hs.popped g hg
  rw [hqueue] at hempty
  cases hempty

theorem Wakes.release (hs : s.Wakes) {next : Option F} (hold : s.pc f = .release next) :
    ({ s.goto f (.guardRelease next) with mutex := false } : State F).Wakes := by
  have hmoves : Moves s f (.release next) (.guardRelease next)
      { s.goto f (.guardRelease next) with mutex := false } := ⟨hold, rfl⟩
  refine ⟨hmoves.sole hs (Or.inl ⟨rfl, fun _ => rfl⟩), ?_, fun hne => ?_⟩
  · intro g hg
    have hgf : g ≠ f := by
      rintro rfl
      rw [hmoves.self] at hg
      cases hg
    rw [hmoves.other hgf] at hg
    exact hs.popped g hg
  · cases next with
    | none => exact absurd (hs.popped f hold) hne
    | some next => exact hmoves.hope rfl

theorem Wakes.submit (hs : s.Wakes) {next : Option F} (hold : s.pc f = .submit next) :
    ({ s.goto f .idle with ready := s.ready ++ next.toList } : State F).Wakes := by
  have hmoves : Moves s f (.submit next) .idle
      { s.goto f .idle with ready := s.ready ++ next.toList } := ⟨hold, rfl⟩
  refine hs.moves hmoves (Or.inl ⟨rfl, fun h => by cases h⟩) rfl (fun h => by cases h) fun hope => ?_
  refine hope.moves hmoves rfl (fun hne => List.append_ne_nil_of_left_ne_nil hne _) fun hsome => ?_
  obtain ⟨next, rfl⟩ := Option.isSome_iff_exists.mp hsome
  exact Or.inr (Or.inl (List.append_ne_nil_of_right_ne_nil _ (List.cons_ne_nil next [])))

theorem wakes_advance (hs : s.Wakes) (hprompt : s.pc f = .push → s.mutex = true)
    (hstep : s.advance this f = some t) : t.Wakes := by
  cases hpc : s.pc f with
  | idle => simp [advance, hpc] at hstep
  | parked => simp [advance, hpc] at hstep
  | tryOuter =>
      simp only [advance, hpc, Option.some.injEq] at hstep
      subst hstep
      exact hs.trylock hpc rfl (fun h => by cases h) rfl
  | tryInner =>
      simp only [advance, hpc, Option.some.injEq] at hstep
      subst hstep
      exact hs.trylock hpc rfl (fun h => by cases h) rfl
  | guardLock =>
      simp only [advance, hpc] at hstep
      exact hs.lockGuard hpc hstep (fun h => by cases h) fun _ => rfl
  | push =>
      simp only [advance, hpc] at hstep
      split at hstep
      · cases hstep
      · cases hstep
        exact hs.push hpc (hprompt hpc)
  | guardUnlock =>
      simp only [advance, hpc, Option.some.injEq] at hstep
      subst hstep
      exact hs.unlockGuard hpc rfl rfl (fun h => by cases h) fun h => by cases h
  | yield =>
      simp only [advance, hpc] at hstep
      split at hstep
      · cases hstep
      · cases hstep
        exact hs.goto hpc rfl id (fun h => by cases h) (fun h => by cases h) ⟨rfl, rfl, rfl, rfl⟩
      · cases hstep
        exact hs.goto hpc rfl id (fun h => by cases h) id ⟨rfl, rfl, rfl, rfl⟩
  | setId =>
      simp only [advance, hpc, Option.some.injEq] at hstep
      subst hstep
      exact hs.goto hpc rfl id (fun h => by cases h) id ⟨rfl, rfl, rfl, rfl⟩
  | unlockGuard =>
      simp only [advance, hpc] at hstep
      exact hs.lockGuard hpc hstep (fun h => by cases h) fun h => by cases h
  | clearId =>
      simp only [advance, hpc, Option.some.injEq] at hstep
      subst hstep
      exact hs.goto hpc rfl id (fun h => by cases h) id ⟨rfl, rfl, rfl, rfl⟩
  | pop =>
      simp only [advance, hpc] at hstep
      split at hstep
      · next hempty =>
        cases hstep
        exact hs.goto hpc rfl id (fun _ => hempty) id ⟨rfl, rfl, rfl, rfl⟩
      · next hqueue =>
        cases hstep
        exact hs.pop hpc hqueue
  | release next =>
      simp only [advance, hpc, Option.some.injEq] at hstep
      subst hstep
      exact hs.release hpc
  | guardRelease next =>
      simp only [advance, hpc, Option.some.injEq] at hstep
      subst hstep
      exact hs.unlockGuard hpc rfl rfl (fun h => by cases h) id
  | submit next =>
      simp only [advance, hpc, Option.some.injEq] at hstep
      subst hstep
      exact hs.submit hpc

theorem wakes_step {l : Label F} (hs : s.Wakes) (hprompt : s.Prompt l) (hstep : s.Step this l t) :
    t.Wakes := by
  rw [Step] at hstep
  cases l with
  | lock f =>
      simp only [step] at hstep
      split at hstep
      · next hidle =>
        cases hstep
        rw [State.lock]
        split
        · exact hs.goto hidle rfl id (fun h => by cases h) id ⟨rfl, rfl, rfl, rfl⟩
        · exact hs.goto hidle rfl id (fun h => by cases h) (fun h => by cases h) ⟨rfl, rfl, rfl, rfl⟩
      · cases hstep
  | unlock f =>
      simp only [step] at hstep
      split at hstep
      · next henabled =>
        cases hstep
        exact hs.goto henabled.1 rfl id (fun h => by cases h) id ⟨rfl, rfl, rfl, rfl⟩
      · cases hstep
  | advance f => exact wakes_advance hs hprompt hstep
  | resume f =>
      simp only [step] at hstep
      split at hstep
      · next hwoken =>
        cases hstep
        have hmoves : Moves s f .parked .tryOuter
            { s.goto f .tryOuter with ready := s.ready.erase f } := ⟨hwoken.1, rfl⟩
        exact hs.moves hmoves (Or.inl ⟨rfl, id⟩) rfl (fun h => by cases h) fun _ => hmoves.hope rfl
      · cases hstep

end Steps

section Examples

/-- The second fiber parks while the first is inside. -/
def parksInTime : List (Label Bool) :=
  [.lock false, .advance false, .advance false, .lock true] ++ List.replicate 6 (.advance true)

/-- The first fiber unlocks between the second `trylock` of the other one and its push. -/
def parksTooLate : List (Label Bool) :=
  [.lock false, .advance false, .advance false, .lock true, .advance true, .advance true,
    .unlock false] ++ List.replicate 6 (.advance false) ++ List.replicate 4 (.advance true)

end Examples

end State

end AsyncRPC.CoMutex
