import AsyncRPC.Scheduler

/-!
# One thread for a fiber

`state_` says nothing about who is on a fiber's stack. As long as no worker takes a fiber that another
one has, each fiber has one worker at most, from its task to its last switch out, and a worker that
keeps a fiber for callbacks is the only one to have it.
-/

namespace AsyncRPC.Scheduler

open Transition

variable {F W : Type}

/-- The fiber a worker is concerned with. -/
def Pc.fiber : Pc F W → Option F
  | .selected task => task.bind Task.fiber
  | .resetting f _ | .recycling f | .engaged _ f _ _ => some f
  | .testing | .selecting | .creating _ | .idling | .waiting | .left => none

/-- The fiber that a callback is given. -/
def Pc.callback : Pc F W → Option F
  | .resetting f _ | .engaged _ f .func _ => some f
  | _ => none

namespace State

structure Own (s : State F W) : Prop where
  alone : ∀ f w w', s.Has w f → s.Has w' f → w = w'
  fiber : ∀ w f, (s.pc w).fiber = some f → s.state f ≠ none
  spare : ∀ w f, s.spare w = some f → s.state f ≠ none
  callback : ∀ w f, (s.pc w).callback = some f → s.spare w = some f
  tasks : ∀ task ∈ s.tasks, ∀ f, task.fiber = some f → s.state f ≠ none

variable {s t : State F W} {w w' : W} {f : F} {pc : Pc F W} {spare : Option F}

theorem fiber_of_hand (h : pc.hand = some f) : pc.fiber = some f := by
  cases pc with
  | selected task => exact h
  | engaged stage g origin k => exact (Option.ite_none_right_eq_some.mp h).2
  | resetting g k => exact h
  | recycling g => exact h
  | _ => cases h

theorem Own.state_ne (h : s.Own) (hhas : s.Has w f) : s.state f ≠ none := by
  rcases hhas with hhand | ⟨hspare, -⟩
  · exact h.fiber w f (fiber_of_hand hhand)
  · exact h.spare w f hspare

theorem has_of_executes (h : s.Executes w f) : s.Has w f := by
  obtain ⟨stage, origin, k, hpc, rfl | rfl⟩ := h
  · exact Or.inl (congrArg Pc.hand hpc)
  · exact Or.inl (congrArg Pc.hand hpc)

theorem has_of_resumes (h : s.Resumes w f) : s.Has w f := by
  obtain ⟨stage, origin, k, hpc, rfl | rfl | rfl⟩ := h
  · exact Or.inl (congrArg Pc.hand hpc)
  · exact Or.inl (congrArg Pc.hand hpc)
  · exact Or.inl (congrArg Pc.hand hpc)

theorem has_of_resets (h : s.Resets w f) : s.Has w f := by
  rcases h with ⟨k, hpc⟩ | hpc
  · exact Or.inl (congrArg Pc.hand hpc)
  · exact Or.inl (congrArg Pc.hand hpc)

theorem Own.safe (h : s.Own) : s.Safe where
  executed f w w' hw hw' := h.alone f w w' (has_of_executes hw) (has_of_executes hw')
  resumed f w w' hw hw' := by
    obtain rfl := h.alone f w w' (has_of_resumes hw) (has_of_executes hw')
    obtain ⟨stage, _, _, hpc, hstage⟩ := hw
    obtain ⟨stage', _, _, hpc', hstage'⟩ := hw'
    cases hpc.symm.trans hpc'
    rcases hstage with rfl | rfl | rfl <;> simp at hstage'
  reset f w w' hw hw' := by
    obtain rfl := h.alone f w w' (has_of_resets hw) (has_of_executes hw')
    obtain ⟨stage, _, _, hpc', -⟩ := hw'
    rcases hw with ⟨k, hpc⟩ | hpc
    · cases hpc.symm.trans hpc'
    · cases hpc.symm.trans hpc'

theorem own_of_new (h : New s) : s.Own where
  alone f w w' hw := by
    rcases hw with hhand | ⟨hspare, -⟩
    · rw [h.pc w] at hhand
      cases hhand
    · rw [h.spare w] at hspare
      cases hspare
  fiber w f hfiber := by
    rw [h.pc w] at hfiber
    cases hfiber
  spare w f hspare := by
    rw [h.spare w] at hspare
    cases hspare
  callback w f hcallback := by
    rw [h.pc w] at hcallback
    cases hcallback
  tasks task htask := by
    rw [h.tasks] at htask
    cases htask

theorem Own.keep (h : s.Own) (hpc : t.pc = s.pc) (hspare : t.spare = s.spare)
    (hstate : ∀ f, s.state f ≠ none → t.state f ≠ none)
    (htasks : ∀ task ∈ t.tasks, ∀ f, task.fiber = some f → t.state f ≠ none) : t.Own where
  alone f w w' hw hw' := by
    rw [Has, hpc, hspare] at hw hw'
    exact h.alone f w w' hw hw'
  fiber w f hfiber := hstate f (h.fiber w f (hpc ▸ hfiber))
  spare w f hf := hstate f (h.spare w f (hspare ▸ hf))
  callback w f hcallback := by
    rw [hspare]
    exact h.callback w f (hpc ▸ hcallback)
  tasks := htasks

section Steps

variable [DecidableEq F] [DecidableEq W]

omit [DecidableEq F] in
/-- A worker moves on; what it has then it has had, or nobody else has. -/
theorem Own.move (h : s.Own) (hpc : t.pc = Function.update s.pc w pc)
    (hspare : t.spare = Function.update s.spare w spare)
    (hstate : ∀ f, s.state f ≠ none → t.state f ≠ none)
    (htasks : ∀ task ∈ t.tasks, ∀ f, task.fiber = some f → t.state f ≠ none)
    (hfiber : ∀ f, pc.fiber = some f → t.state f ≠ none)
    (hknown : ∀ f, spare = some f → t.state f ≠ none)
    (hcallback : ∀ f, pc.callback = some f → spare = some f)
    (hhas : ∀ f, pc.hand = some f ∨ (spare = some f ∧ pc.unsure = false) →
      s.Has w f ∨ ∀ w', w' ≠ w → ¬ s.Has w' f) : t.Own := by
  have hself : t.pc w = pc ∧ t.spare w = spare := by
    rw [hpc, hspare, Function.update_self, Function.update_self]
    exact ⟨rfl, rfl⟩
  have hothers : ∀ w', w' ≠ w → t.pc w' = s.pc w' ∧ t.spare w' = s.spare w' := by
    intro w' hw'
    rw [hpc, hspare, Function.update_of_ne hw', Function.update_of_ne hw']
    exact ⟨rfl, rfl⟩
  have hsame : ∀ f w', w' ≠ w → t.Has w' f → s.Has w' f := by
    intro f w' hw' hhas
    rwa [Has, (hothers w' hw').1, (hothers w' hw').2] at hhas
  have hnew : ∀ f, t.Has w f → ∀ w', w' ≠ w → ¬ s.Has w' f := by
    intro f hw w' hw'
    rw [Has, hself.1, hself.2] at hw
    rcases hhas f hw with hhad | hnone
    · exact fun hhas' => hw' (h.alone f w' w hhas' hhad)
    · exact hnone w' hw'
  refine
    { alone := fun f u u' hu hu' => ?_
      fiber := fun w' f hf => ?_
      spare := fun w' f hf => ?_
      callback := fun w' f hf => ?_
      tasks := htasks }
  · by_cases huw : u = w
    · by_cases huw' : u' = w
      · exact huw.trans huw'.symm
      · subst huw
        exact absurd (hsame f u' huw' hu') (hnew f hu u' huw')
    · by_cases huw' : u' = w
      · subst huw'
        exact absurd (hsame f u huw hu) (hnew f hu' u huw)
      · exact h.alone f u u' (hsame f u huw hu) (hsame f u' huw' hu')
  · by_cases hw' : w' = w
    · subst hw'
      exact hfiber f (hself.1 ▸ hf)
    · exact hstate f (h.fiber w' f ((hothers w' hw').1 ▸ hf))
  · by_cases hw' : w' = w
    · subst hw'
      exact hknown f (hself.2 ▸ hf)
    · exact hstate f (h.spare w' f ((hothers w' hw').2 ▸ hf))
  · by_cases hw' : w' = w
    · subst hw'
      rw [hself.2]
      exact hcallback f (hself.1 ▸ hf)
    · rw [(hothers w' hw').2]
      exact h.callback w' f ((hothers w' hw').1 ▸ hf)

omit [DecidableEq F] in
/-- A worker moves on with what it has, or less. -/
theorem Own.goto (h : s.Own) (hpc : t.pc = Function.update s.pc w pc) (hspare : t.spare = s.spare)
    (hstate : ∀ f, s.state f ≠ none → t.state f ≠ none)
    (htasks : ∀ task ∈ t.tasks, ∀ f, task.fiber = some f → t.state f ≠ none)
    (hfiber : ∀ f, pc.fiber = some f → (s.pc w).fiber = some f)
    (hhand : ∀ f, pc.hand = some f → (s.pc w).hand = some f)
    (hunsure : pc.unsure = false → (s.pc w).unsure = false)
    (hcallback : ∀ f, pc.callback = some f → (s.pc w).callback = some f) : t.Own := by
  refine h.move hpc (hspare.trans (Function.update_eq_self w s.spare).symm) hstate htasks
    (fun f hf => hstate f (h.fiber w f (hfiber f hf))) (fun f hf => hstate f (h.spare w f hf))
    (fun f hf => h.callback w f (hcallback f hf)) fun f hhas => Or.inl ?_
  rcases hhas with hf | ⟨hf, hsure⟩
  · exact Or.inl (hhand f hf)
  · exact Or.inr ⟨hf, hunsure hsure⟩

omit [DecidableEq W] in
theorem setState_ne {g : F} {state : FiberState} (hg : s.state g ≠ none) :
    (s.setState f state).state g ≠ none := by
  by_cases hgf : g = f
  · subst hgf
    change Function.update s.state g (some state) g ≠ none
    rw [Function.update_self]
    simp
  · change Function.update s.state f (some state) g ≠ none
    rwa [Function.update_of_ne hgf]

omit [DecidableEq W] in
theorem setState_self_ne (state : FiberState) : (s.setState f state).state f ≠ none := by
  change Function.update s.state f (some state) f ≠ none
  rw [Function.update_self]
  simp

omit [DecidableEq W] in
theorem Own.tasks_setState (h : s.Own) {state : FiberState} :
    ∀ task ∈ s.tasks, ∀ g, task.fiber = some g → (s.setState f state).state g ≠ none :=
  fun task htask g hg => setState_ne (h.tasks task htask g hg)

omit [DecidableEq F] [DecidableEq W] in
theorem Own.tasks_push (h : s.Own) {work : Work F} {thread : Option W}
    (hwork : ∀ f, work = .fiber f → s.state f ≠ none) :
    ∀ task ∈ (s.push work thread).tasks, ∀ f, task.fiber = some f → s.state f ≠ none := by
  intro task htask f hf
  rcases List.mem_append.mp htask with hold | hnew
  · exact h.tasks task hold f hf
  · cases List.mem_singleton.mp hnew
    cases work with
    | fiber g => exact hwork f (congrArg Work.fiber (Option.some.inj hf))
    | func => cases hf

omit [DecidableEq F] [DecidableEq W] in
theorem Own.tasks_resubmit (h : s.Own) {stage : Stage} {origin : Origin} {k : Nat}
    (hpc : s.pc w = .engaged stage f origin k) :
    ∀ task ∈ (s.push (.fiber f) none).tasks, ∀ g, task.fiber = some g → s.state g ≠ none := by
  refine h.tasks_push ?_
  rintro g ⟨⟩
  exact h.fiber w f (congrArg Pc.fiber hpc)

omit [DecidableEq F] in
theorem Own.rest (h : s.Own) (hpc : t.pc = Function.update s.pc w pc) (hspare : t.spare = s.spare)
    (hstate : t.state = s.state)
    (htasks : ∀ task ∈ t.tasks, ∀ f, task.fiber = some f → s.state f ≠ none)
    (hfiber : pc.fiber = none) (hcallback : pc.callback = none)
    (hunsure : (s.pc w).unsure = false) : t.Own := by
  refine h.goto hpc hspare (fun f hf => by rwa [hstate]) (fun task htask f hf => ?_)
    (fun f hf => ?_) (fun f hf => ?_) (fun _ => hunsure) fun f hf => ?_
  · rw [hstate]
    exact htasks task htask f hf
  · rw [hfiber] at hf
    cases hf
  · rw [fiber_of_hand hf] at hfiber
    cases hfiber
  · rw [hcallback] at hf
    cases hf

omit [DecidableEq F] in
theorem Own.select (h : s.Own) (hpc : s.pc w = .selecting) (halone : s.Alone (.select w)) :
    Own { s.goto w (.selected (s.tasks.find? (s.eligible w))) with
      tasks := s.tasks.eraseP (s.eligible w) } := by
  have htaken : ∀ f, (s.tasks.find? (s.eligible w)).bind Task.fiber = some f → s.state f ≠ none := by
    intro f hf
    obtain ⟨task, hfind, hfiber⟩ := Option.bind_eq_some_iff.mp hf
    exact h.tasks task (List.mem_of_find?_eq_some hfind) f hfiber
  refine h.move (w := w) rfl (Function.update_eq_self w s.spare).symm (fun _ => id)
    (fun task htask => h.tasks task (List.mem_of_mem_eraseP htask)) htaken
    (fun f hf => h.spare w f hf) (fun f hf => by cases hf) ?_
  rintro f (hf | ⟨hf, -⟩)
  · refine Or.inr (halone (w, f) ?_)
    rw [gains, Option.mem_def, show (s.tasks.find? (s.eligible w)).bind Task.fiber = some f from hf]
    rfl
  · exact Or.inl (Or.inr ⟨hf, by rw [hpc]; rfl⟩)

omit [DecidableEq F] in
theorem Own.beIdle (h : s.Own) (hunsure : (s.pc w).unsure = false) : (s.beIdle w).Own := by
  unfold State.beIdle
  split
  · exact h.rest rfl rfl rfl h.tasks rfl rfl hunsure
  · exact h.rest rfl rfl rfl h.tasks rfl rfl hunsure

omit [DecidableEq F] in
theorem Own.dispatch (h : s.Own) {task : Option (Task F W)} (hpc : s.pc w = .selected task) :
    (s.dispatch w task).Own := by
  have hunsure : (s.pc w).unsure = false := by
    rw [hpc]
    rfl
  unfold State.dispatch
  split
  · exact h.beIdle hunsure
  · next task =>
    split
    · next f hwork =>
      have hfiber : task.fiber = some f := by
        rw [Task.fiber, hwork]
      split
      · have hserved : (s.serve task.ticket).Own := h.keep rfl rfl (fun _ => id) h.tasks
        exact hserved.beIdle hunsure
      · refine h.goto rfl rfl (fun _ => id) h.tasks ?_ ?_ (fun _ => hunsure) fun g hg => by cases hg
        · intro g hg
          rw [hpc]
          exact hfiber.trans hg
        · intro g hg
          rw [hpc]
          exact hfiber.trans hg
    · split
      · next f hspare =>
        refine h.move (w := w) rfl (Function.update_eq_self w s.spare).symm (fun _ => id) h.tasks ?_
          (fun g hg => h.spare w g hg) ?_ ?_
        · rintro g ⟨⟩
          exact h.spare w _ hspare
        · rintro g ⟨⟩
          exact hspare
        · -- the worker keeps it already
          rintro g (⟨⟨⟩⟩ | ⟨hg, -⟩)
          · exact Or.inl (Or.inr ⟨hspare, hunsure⟩)
          · exact Or.inl (Or.inr ⟨hg, hunsure⟩)
      · exact h.rest rfl rfl rfl h.tasks rfl rfl hunsure

theorem Own.spawn (h : s.Own) {k : Nat} (hfresh : s.state f = none) :
    (((s.setState f .init).setSpare w (some f)).goto w (.engaged .counting f .func k)).Own := by
  have hnobody : ∀ w', ¬ s.Has w' f := fun w' hhas => h.state_ne hhas hfresh
  refine h.move rfl (rfl : _ = Function.update s.spare w (some f)) (fun g => setState_ne)
    h.tasks_setState ?_ ?_ (fun g hg => hg) ?_
  · rintro g ⟨⟩
    exact setState_self_ne _
  · rintro g ⟨⟩
    exact setState_self_ne _
  · rintro g (⟨⟨⟩⟩ | ⟨⟨⟩, -⟩)
    · exact Or.inr fun w' _ => hnobody w'
    · exact Or.inr fun w' _ => hnobody w'

omit [DecidableEq F] in
theorem Own.check (h : s.Own) {origin : Origin} {k : Nat}
    (hpc : s.pc w = .engaged .checking f origin k) (halone : s.Alone (.check w)) :
    (s.check w f origin k).Own := by
  unfold State.check
  split
  · refine h.goto rfl rfl (fun _ => id) h.tasks ?_ ?_ ?_ ?_
    · rw [hpc]
      exact fun _ => id
    · rw [hpc]
      exact fun _ => id
    · rw [hpc]
      cases origin <;> exact id
    · rw [hpc]
      cases origin <;> exact fun _ => id
  · cases origin with
    | fiber => exact h.rest rfl rfl rfl h.tasks rfl rfl (by rw [hpc]; rfl)
    | func =>
        have hkept : s.spare w = some f := h.callback w f (by rw [hpc]; rfl)
        have hknown : s.state f ≠ none := h.fiber w f (by rw [hpc]; rfl)
        dsimp only
        split
        · next hover =>
          have hnobody : ∀ w', w' ≠ w → ¬ s.Has w' f := by
            refine halone (w, f) ?_
            rw [gains, Option.mem_def, hpc]
            exact if_pos hover
          refine h.move (w := w) rfl (Function.update_eq_self w s.spare).symm (fun _ => id) h.tasks
            ?_ (fun g hg => h.spare w g hg) (fun g hg => by cases hg) ?_
          · rintro g ⟨⟩
            exact hknown
          · rintro g (⟨⟨⟩⟩ | ⟨hg, -⟩)
            · exact Or.inr hnobody
            · cases hkept.symm.trans hg
              exact Or.inr hnobody
        · refine h.move rfl (rfl : _ = Function.update s.spare w none) (fun _ => id) h.tasks
            (fun g hg => by cases hg) (fun g hg => by cases hg) (fun g hg => by cases hg) ?_
          rintro g (⟨⟨⟩⟩ | ⟨⟨⟩, -⟩)

omit [DecidableEq F] in
/-- A worker goes on with its fiber, or has done with it. -/
theorem Own.onward (h : s.Own) {stage stage' : Stage} {origin : Origin} {k : Nat}
    (hpc : s.pc w = .engaged stage f origin k)
    (ht : t.pc = Function.update s.pc w (.engaged stage' f origin k)) (hspare : t.spare = s.spare)
    (hstate : ∀ f, s.state f ≠ none → t.state f ≠ none) (htasks : t.tasks = s.tasks)
    (hhand : stage'.inHand = true → stage.inHand = true) : t.Own := by
  refine h.goto ht hspare hstate (fun task htask g hg => ?_) ?_ ?_ ?_ ?_
  · exact hstate g (h.tasks task (htasks ▸ htask) g hg)
  · rw [hpc]
    exact fun _ => id
  · rw [hpc]
    intro g hg
    obtain ⟨hin, hfg⟩ := Option.ite_none_right_eq_some.mp hg
    exact (if_pos (hhand hin)).trans hfg
  · rw [hpc]
    cases origin with
    | fiber => exact fun _ => rfl
    | func =>
        intro hsure
        have hin : stage'.inHand = true := by simpa [Pc.unsure] using hsure
        simp [Pc.unsure, hhand hin]
  · rw [hpc]
    cases origin with
    | fiber => exact fun g hg => by cases hg
    | func => exact fun _ => id

/-- What a step asks of the state before it and makes of it. -/
inductive Stepped (s : State F W) : Label F W → State F W → Prop
  | create {f : F} (hfresh : s.state f = none) : Stepped s (.create f) (s.setState f .init)
  | submit {work : Work F} {thread : Option W} (hknown : ∀ f, work = .fiber f → s.state f ≠ none) :
      Stepped s (.submit work thread) (s.push work thread)
  | stop : Stepped s .stop { s with stop := true }
  | leave {w : W} (hpc : s.pc w = .testing) (hstop : s.stop = true) :
      Stepped s (.test w) (s.goto w .left)
  | look {w : W} (hpc : s.pc w = .testing) (hrunning : s.stop = false) :
      Stepped s (.test w) (s.goto w .selecting)
  | select {w : W} (hpc : s.pc w = .selecting) :
      Stepped s (.select w)
        { s.goto w (.selected (s.tasks.find? (s.eligible w))) with
          tasks := s.tasks.eraseP (s.eligible w) }
  | dispatch {w : W} {task : Option (Task F W)} (hpc : s.pc w = .selected task) :
      Stepped s (.dispatch w) (s.dispatch w task)
  | reset {w : W} {f : F} {k : Nat} (hpc : s.pc w = .resetting f k) :
      Stepped s (.reset w) ((s.setState f .init).goto w (.engaged .counting f .func k))
  | spawn {w : W} {f : F} {k : Nat} (hpc : s.pc w = .creating k) (hfresh : s.state f = none) :
      Stepped s (.spawn w f)
        (((s.setState f .init).setSpare w (some f)).goto w (.engaged .counting f .func k))
  | count {w : W} {f : F} {origin : Origin} {k : Nat} (hpc : s.pc w = .engaged .counting f origin k) :
      Stepped s (.count w)
        { s.goto w (.engaged .asserting f origin k) with activeThreads := s.activeThreads + 1 }
  | assert {w : W} {f : F} {origin : Origin} {k : Nat}
      (hpc : s.pc w = .engaged .asserting f origin k) :
      Stepped s (.assert w) (s.goto w (.engaged .executing f origin k))
  | exec {w : W} {f : F} {origin : Origin} {k : Nat} (hpc : s.pc w = .engaged .executing f origin k) :
      Stepped s (.exec w) ((s.setState f .exec).goto w (.engaged .entering f origin k))
  | switchIn {w : W} {f : F} {origin : Origin} {k : Nat}
      (hpc : s.pc w = .engaged .entering f origin k) :
      Stepped s (.switchIn w) ((s.serve k).goto w (.engaged .running f origin k))
  | yield {w : W} {f : F} {origin : Origin} {k : Nat} {way : Yield}
      (hpc : s.pc w = .engaged .running f origin k) :
      Stepped s (.yield w way) ((s.setState f way.state).goto w (.engaged .yielding f origin k))
  | switchOut {w : W} {f : F} {origin : Origin} {k : Nat}
      (hpc : s.pc w = .engaged .yielding f origin k) :
      Stepped s (.switchOut w) (s.goto w (.engaged .returned f origin k))
  | uncount {w : W} {f : F} {origin : Origin} {k : Nat}
      (hpc : s.pc w = .engaged .returned f origin k) :
      Stepped s (.uncount w)
        { s.goto w (.engaged .checking f origin k) with activeThreads := s.activeThreads - 1 }
  | check {w : W} {f : F} {origin : Origin} {k : Nat} (hpc : s.pc w = .engaged .checking f origin k) :
      Stepped s (.check w) (s.check w f origin k)
  | resubmitFiber {w : W} {f : F} {k : Nat} (hpc : s.pc w = .engaged .resubmitting f .fiber k) :
      Stepped s (.resubmit w) ((s.push (.fiber f) none).goto w .testing)
  | resubmitFunc {w : W} {f : F} {k : Nat} (hpc : s.pc w = .engaged .resubmitting f .func k) :
      Stepped s (.resubmit w) (((s.push (.fiber f) none).goto w .testing).setSpare w none)
  | recycle {w : W} {f : F} (hpc : s.pc w = .recycling f) :
      Stepped s (.recycle w) ((s.setState f .init).goto w .testing)
  | done {w : W} {quiet : Bool} (hpc : s.pc w = .idling) (hstopping : s.stopping = true) :
      Stepped s (.idle w quiet)
        { s.goto w .testing with idleEnded := Function.update s.idleEnded w true }
  | rest {w : W} {quiet : Bool} (hpc : s.pc w = .idling) :
      Stepped s (.idle w quiet) (s.goto w .waiting)
  | wait {w : W} (hpc : s.pc w = .waiting) : Stepped s (.wait w) (s.goto w .testing)

theorem stepped_of_step {l : Label F W} (hstep : s.step l = some t) : Stepped s l t := by
  cases l with
  | create f =>
      simp only [step] at hstep
      split at hstep
      · next hfresh =>
        cases hstep
        exact .create hfresh
      · cases hstep
  | submit work thread =>
      cases work with
      | fiber f =>
          simp only [step] at hstep
          split at hstep
          · cases hstep
          · next hknown =>
            cases hstep
            refine .submit ?_
            rintro g ⟨⟩
            exact hknown
      | func =>
          cases hstep
          exact .submit fun f hf => by cases hf
  | stop =>
      cases hstep
      exact .stop
  | test w =>
      simp only [step] at hstep
      split at hstep
      · next hpc =>
        cases hstep
        split
        · next hstop => exact .leave hpc hstop
        · next hstop => exact .look hpc (eq_false_of_ne_true hstop)
      · cases hstep
  | assert w =>
      simp only [step] at hstep
      split at hstep
      · next hpc =>
        split at hstep
        · cases hstep
        · cases hstep
          exact .assert hpc
      · cases hstep
  | reset w =>
      simp only [step] at hstep
      split at hstep
      · next hpc =>
        split at hstep
        · cases hstep
          exact .reset hpc
        · cases hstep
      · cases hstep
  | spawn w f =>
      simp only [step] at hstep
      split at hstep
      · next hpc =>
        split at hstep
        · next hfresh =>
          cases hstep
          exact .spawn hpc hfresh
        · cases hstep
      · cases hstep
  | recycle w =>
      simp only [step] at hstep
      split at hstep
      · next hpc =>
        split at hstep
        · cases hstep
          exact .recycle hpc
        · cases hstep
      · cases hstep
  | resubmit w =>
      simp only [step] at hstep
      split at hstep
      · next f origin k hpc =>
        cases hstep
        cases origin with
        | fiber => exact .resubmitFiber hpc
        | func => exact .resubmitFunc hpc
      · cases hstep
  | idle w quiet =>
      simp only [step] at hstep
      split at hstep
      · next hpc =>
        cases hstep
        split
        · next hdone =>
          rw [Bool.and_eq_true] at hdone
          exact .done hpc hdone.1
        · exact .rest hpc
      · cases hstep
  | select w | dispatch w | count w | exec w | switchIn w | yield w way | switchOut w | uncount w
  | check w | wait w =>
      simp only [step] at hstep
      split at hstep
      · next hpc =>
        cases hstep
        constructor
        exact hpc
      · cases hstep

theorem own_step (h : s.Own) {l : Label F W} (halone : s.Alone l) (hstep : s.step l = some t) :
    t.Own := by
  cases stepped_of_step hstep with
  | create => exact h.keep rfl rfl (fun _ => setState_ne) h.tasks_setState
  | submit hknown => exact h.keep rfl rfl (fun _ => id) (h.tasks_push hknown)
  | stop => exact h.keep rfl rfl (fun _ => id) h.tasks
  | leave hpc => exact h.rest rfl rfl rfl h.tasks rfl rfl (congrArg Pc.unsure hpc)
  | look hpc => exact h.rest rfl rfl rfl h.tasks rfl rfl (congrArg Pc.unsure hpc)
  | select hpc => exact h.select hpc halone
  | dispatch hpc => exact h.dispatch hpc
  | reset hpc =>
      refine h.goto rfl rfl (fun _ => setState_ne) h.tasks_setState ?_ ?_ ?_ ?_
      · rw [hpc]
        exact fun _ => id
      · rw [hpc]
        exact fun _ => id
      · rw [hpc]
        exact id
      · rw [hpc]
        exact fun _ => id
  | spawn _ hfresh => exact h.spawn hfresh
  | count hpc => exact h.onward hpc rfl rfl (fun _ => id) rfl fun _ => rfl
  | assert hpc => exact h.onward hpc rfl rfl (fun _ => id) rfl fun _ => rfl
  | exec hpc => exact h.onward hpc rfl rfl (fun _ => setState_ne) rfl fun _ => rfl
  | switchIn hpc => exact h.onward hpc rfl rfl (fun _ => id) rfl fun _ => rfl
  | yield hpc => exact h.onward hpc rfl rfl (fun _ => setState_ne) rfl fun _ => rfl
  | switchOut hpc => exact h.onward hpc rfl rfl (fun _ => id) rfl fun _ => rfl
  | uncount hpc => exact h.onward hpc rfl rfl (fun _ => id) rfl id
  | check hpc => exact h.check hpc halone
  | resubmitFiber hpc =>
      exact h.rest rfl rfl rfl (h.tasks_resubmit hpc) rfl rfl (congrArg Pc.unsure hpc)
  | resubmitFunc hpc =>
      refine h.move rfl (rfl : _ = Function.update s.spare _ none) (fun _ => id)
        (h.tasks_resubmit hpc) (fun g hg => by cases hg) (fun g hg => by cases hg)
        (fun g hg => by cases hg) ?_
      rintro g (⟨⟨⟩⟩ | ⟨⟨⟩, -⟩)
  | @recycle w f hpc =>
      have hreset : (s.setState f .init).Own :=
        h.keep rfl rfl (fun _ => setState_ne) h.tasks_setState
      exact hreset.rest rfl rfl rfl hreset.tasks rfl rfl (congrArg Pc.unsure hpc)
  | done hpc => exact h.rest rfl rfl rfl h.tasks rfl rfl (congrArg Pc.unsure hpc)
  | rest hpc => exact h.rest rfl rfl rfl h.tasks rfl rfl (congrArg Pc.unsure hpc)
  | wait hpc => exact h.rest rfl rfl rfl h.tasks rfl rfl (congrArg Pc.unsure hpc)

/-- **One thread for a fiber**, for any number of workers and in every order of their steps, as long
as no worker takes a fiber that another one has. -/
theorem safe_of_alone (s : State F W) (hreach : Reachable (Guarded Alone Step) New s) : s.Safe := by
  have hown : s.Own := by
    refine hreach.invariant (fun _ => own_of_new) ?_
    rintro s l t h ⟨halone, hstep⟩
    exact own_step h halone hstep
  exact hown.safe

end Steps

section Examples

def newScheduler : State Nat Bool :=
  { stop := false, activeThreads := 0, tasks := [], state := fun _ => none, pc := fun _ => .testing,
    spare := fun _ => none, idleEnded := fun _ => false, next := 0, served := fun _ => false }

theorem new_newScheduler : New newScheduler :=
  ⟨rfl, rfl, rfl, fun _ => rfl, fun _ => rfl, fun _ => rfl, fun _ => rfl, rfl⟩

/-- A worker takes a fiber's task and switches in. -/
def resumes (w : Bool) : List (Label Nat Bool) :=
  [.test w, .select w, .dispatch w, .count w, .assert w, .exec w, .switchIn w]

/-- A worker runs a callback to its end and keeps its fiber. -/
def callback (w : Bool) (f : Nat) : List (Label Nat Bool) :=
  [.test w, .select w, .dispatch w, .spawn w f, .count w, .assert w, .exec w, .switchIn w,
    .yield w .term, .switchOut w, .uncount w, .check w, .recycle w]

/-- One worker runs a callback, then the other a fiber that yields and is resumed by the first. -/
def oneAfterTheOther : List (Label Nat Bool) :=
  .submit .func none :: callback false 7 ++ [.create 3, .submit (.fiber 3) none] ++ resumes true ++
    [.submit (.fiber 3) none, .yield true .hold, .switchOut true] ++ resumes false

theorem safe_of_alone_oneAfterTheOther :
    ∃ s : State Nat Bool, Reachable (Guarded Alone Step) New s ∧
      s.pc true = .engaged .returned 3 .fiber 1 ∧ s.pc false = .engaged .running 3 .fiber 2 ∧
        s.Safe := by
  obtain ⟨s, hrun, hvalue⟩ : ∃ s, oneAfterTheOther.foldlM (guarded Alone step) newScheduler = some s ∧
      [s.pc true, s.pc false] =
        [.engaged .returned 3 .fiber 1, .engaged .running 3 .fiber 2] :=
    Option.map_eq_some_iff.mp (by decide)
  have hreach : Reachable (Guarded Alone Step) New s :=
    .of_run guarded_step (.start new_newScheduler) hrun
  simp only [List.cons.injEq, and_true] at hvalue
  exact ⟨s, hreach, hvalue.1, hvalue.2, safe_of_alone s hreach⟩

/-- A fiber is submitted while it runs, and sets its state to `HOLD`; before it has switched out, the
other worker takes it. -/
def tooEarly : List (Label Nat Bool) :=
  [.create 3, .submit (.fiber 3) none] ++ resumes true ++
    [.submit (.fiber 3) none, .yield true .hold] ++ resumes false

theorem not_safe_tooEarly : ∃ s : State Nat Bool, Reachable Step New s ∧ ¬ s.Safe := by
  obtain ⟨s, hrun, hvalue⟩ : ∃ s, tooEarly.foldlM step newScheduler = some s ∧
      [s.pc true, s.pc false] =
        [.engaged .yielding 3 .fiber 0, .engaged .running 3 .fiber 1] :=
    Option.map_eq_some_iff.mp (by decide)
  simp only [List.cons.injEq, and_true] at hvalue
  refine ⟨s, .of_run (fun _ _ _ hstep => hstep) (.start new_newScheduler) hrun, fun h => ?_⟩
  have htwo : true = false :=
    h.executed 3 true false ⟨_, _, _, hvalue.1, Or.inr rfl⟩ ⟨_, _, _, hvalue.2, Or.inl rfl⟩
  cases htwo

end Examples

end State

end AsyncRPC.Scheduler
