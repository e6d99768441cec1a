import AsyncRPC.Fiber

/-!
# Fibers are coroutines

As long as only threads resume fibers, only fibers that have switched out and have not ended, and such a
fiber is reset or destroyed only then, every thread finds its own code where it was when a fiber yields
or ends, and every fiber finds its own when it is resumed. Where a fiber resumes another one the
thread's code is lost.
-/

namespace AsyncRPC.Fiber

open Coroutine (Code Status)
open Scheduler (FiberState)

variable {W : Type} [DecidableEq W] {s t : State W} {a b : Coroutine.State W} {w w' : W} {f k n : Nat}
  {c : Code W} {x : Option (Fiber W)} {status : Option Status} {this : Current} {back : Context W}

section Frames

/-- What the step of a thread leaves alone of the others. -/
structure Frame (s : State W) (w : W) (t : State W) : Prop where
  log : t.log = s.log
  others : ∀ w', w' ≠ w → t.running w' = s.running w' ∧ t.current w' = s.current w' ∧
    t.threadFiber w' = s.threadFiber w'

theorem Frame.goTo {u : State W} {position : Position W} (hlog : u.log = s.log)
    (hrunning : u.running = s.running)
    (hothers : ∀ w', w' ≠ w → u.current w' = s.current w' ∧ u.threadFiber w' = s.threadFiber w') :
    Frame s w (u.goTo w position) := by
  refine ⟨hlog, fun w' hw => ⟨?_, hothers w' hw⟩⟩
  change Function.update u.running w _ w' = _
  rw [Function.update_of_ne hw, hrunning]

theorem yieldTo_cases {state : FiberState} (h : s.yieldTo w c n state = some t) :
    (∃ main, s.current w = some .main ∧ s.threadFiber w = some main ∧
      t = (s.setThreadFiber w { main with state := state }).goTo w
        (.yield c n .main (.code c (n + 1)))) ∨
    ∃ f fiber, s.current w = some (.fiber f) ∧ s.fibers f = some fiber ∧
      t = (s.setFiber f (some { fiber with state := state })).goTo w
        (.yield c n (.fiber f) (.code c (n + 1))) := by
  rw [State.yieldTo] at h
  split at h
  · next main hthis hmain =>
    cases h
    exact Or.inl ⟨main, hthis, hmain, rfl⟩
  · next f hthis =>
    split at h
    · next fiber hfiber =>
      cases h
      exact Or.inr ⟨f, fiber, hthis, hfiber, rfl⟩
    · cases h
  · cases h

theorem yield_cases (h : s.yield w this back = some t) : ∃ main, s.threadFiber w = some main ∧
    ((this = .main ∧
      t = ((s.setThis w .main).setThreadFiber w { main with ctx := back }).goTo w (.ctx back)) ∨
    ∃ f fiber, this = .fiber f ∧ s.fibers f = some fiber ∧
      t = ((s.setThis w .main).setFiber f (some { fiber with ctx := back })).goTo w (.ctx main.ctx)) := by
  unfold State.yield at h
  split at h
  · next main hmain =>
    cases h
    exact ⟨main, hmain, Or.inl ⟨rfl, rfl⟩⟩
  · next f main hmain =>
    split at h
    · next fiber hfiber =>
      cases h
      exact ⟨main, hmain, Or.inr ⟨f, fiber, rfl, hfiber, rfl⟩⟩
    · cases h
  · cases h

theorem finish_cases {f : Nat} (h : s.finish w c n f = some t) : ∃ fiber, s.fibers f = some fiber ∧
    t = (s.setFiber f (some { fiber with state := .term, func := none })).goTo w
      (.yield c n (.fiber f) .leaving) := by
  rw [State.finish] at h
  split at h
  · next fiber hfiber =>
    cases h
    exact ⟨fiber, hfiber, rfl⟩
  · cases h

theorem resume_cases {here : Context W} (h : s.resume w here f = some t) : ∃ fiber main,
    s.fibers f = some fiber ∧ s.threadFiber w = some main ∧ fiber.state ≠ .exec ∧
      t = (((s.setThis w (.fiber f)).setFiber f (some { fiber with state := .exec })).setThreadFiber w
        { main with ctx := here }).goTo w (.ctx fiber.ctx) := by
  rw [State.resume] at h
  split at h
  · next fiber main hfiber hmain =>
    split at h
    · cases h
    · next hexec =>
      cases h
      exact ⟨fiber, main, hfiber, hmain, hexec, rfl⟩
  · cases h

theorem yieldTo_frame {state : FiberState} (h : s.yieldTo w c n state = some t) : Frame s w t := by
  rcases yieldTo_cases h with ⟨main, -, -, rfl⟩ | ⟨f, fiber, -, -, rfl⟩
  · exact Frame.goTo rfl rfl fun w' hw => ⟨rfl, Function.update_of_ne hw _ _⟩
  · exact Frame.goTo rfl rfl fun w' _ => ⟨rfl, rfl⟩

theorem yield_frame (h : s.yield w this back = some t) : Frame s w t := by
  obtain ⟨main, -, ⟨-, rfl⟩ | ⟨f, fiber, -, -, rfl⟩⟩ := yield_cases h
  · exact Frame.goTo rfl rfl fun w' hw => ⟨Function.update_of_ne hw _ _, Function.update_of_ne hw _ _⟩
  · exact Frame.goTo rfl rfl fun w' hw => ⟨Function.update_of_ne hw _ _, rfl⟩

theorem perform_frame {act : Act} (h : s.perform w c n act = some t) : Frame s w t := by
  cases act with
  | work =>
      cases h
      exact Frame.goTo rfl rfl fun w' _ => ⟨rfl, rfl⟩
  | enableFiber =>
      rw [State.perform] at h
      split at h
      · cases h
        exact Frame.goTo rfl rfl fun w' hw => ⟨Function.update_of_ne hw _ _, Function.update_of_ne hw _ _⟩
      · cases h
        exact Frame.goTo rfl rfl fun w' _ => ⟨rfl, rfl⟩
  | create =>
      rw [State.perform] at h
      split at h
      · cases h
      · cases h
        have hframe : Frame s w ((s.setFiber (s.fiberId + 1) (some ⟨.init, .mainFunc, some 0⟩)).goTo w
            (.ctx (.code c n))) := Frame.goTo rfl rfl fun w' _ => ⟨rfl, rfl⟩
        exact ⟨hframe.log, hframe.others⟩
  | reset f empty =>
      rw [State.perform] at h
      split at h
      · cases h
        have hframe : Frame s w ((s.setFiber f
            (some ⟨.init, .mainFunc, if empty then none else some (s.callbacks f)⟩)).goTo w
              (.ctx (.code c n))) := Frame.goTo rfl rfl fun w' _ => ⟨rfl, rfl⟩
        exact ⟨hframe.log, hframe.others⟩
      · cases h
  | destroy f =>
      rw [State.perform] at h
      split at h
      · cases h
        exact Frame.goTo rfl rfl fun w' _ => ⟨rfl, rfl⟩
      · cases h
  | resume f =>
      obtain ⟨fiber, main, -, -, -, rfl⟩ := resume_cases h
      exact Frame.goTo rfl rfl fun w' hw => ⟨Function.update_of_ne hw _ _, Function.update_of_ne hw _ _⟩
  | yieldToHold | yieldToReady => exact yieldTo_frame h
  | finish =>
      cases c with
      | own w' => cases h
      | body f k =>
          obtain ⟨fiber, -, rfl⟩ := finish_cases h
          exact Frame.goTo rfl rfl fun w' _ => ⟨rfl, rfl⟩
  | switch | enter | exit => cases h

/-- The fibers that a step of the code changes. -/
theorem perform_fibers {act : Act} (h : s.perform w c n act = some t) (hmade : f ≠ s.fiberId + 1)
    (htarget : act.target ≠ some f) (hcurrent : s.current w ≠ some (.fiber f))
    (hcode : ∀ k, c ≠ .body f k) : t.fibers f = s.fibers f := by
  have hother : ∀ {f' : Nat} {fiber : Option (Fiber W)}, (f = f' → False) →
      Function.update s.fibers f' fiber f = s.fibers f := fun hne => Function.update_of_ne hne _ _
  have hyield : ∀ {state}, s.yieldTo w c n state = some t → t.fibers f = s.fibers f := by
    intro state h
    rcases yieldTo_cases h with ⟨main, -, -, rfl⟩ | ⟨f', fiber, hthis, -, rfl⟩
    · rfl
    · exact hother fun heq => hcurrent (heq ▸ hthis)
  cases act with
  | work =>
      cases h
      rfl
  | enableFiber =>
      rw [State.perform] at h
      split at h
      · cases h
        rfl
      · cases h
        rfl
  | create =>
      rw [State.perform] at h
      split at h
      · cases h
      · cases h
        exact hother hmade
  | reset f' empty =>
      rw [State.perform] at h
      split at h
      · cases h
        exact hother fun heq => htarget (heq ▸ rfl)
      · cases h
  | destroy f' =>
      rw [State.perform] at h
      split at h
      · cases h
        exact hother fun heq => htarget (heq ▸ rfl)
      · cases h
  | resume f' =>
      obtain ⟨fiber, main, -, -, -, rfl⟩ := resume_cases h
      exact hother fun heq => htarget (heq ▸ rfl)
  | yieldToHold | yieldToReady => exact hyield h
  | finish =>
      cases c with
      | own w' => cases h
      | body f' k =>
          obtain ⟨fiber, -, rfl⟩ := finish_cases h
          exact hother fun heq => hcode k (heq ▸ rfl)
  | switch | enter | exit => cases h

theorem yield_fibers (h : s.yield w this back = some t) (hthis : this ≠ .fiber f) :
    t.fibers f = s.fibers f := by
  obtain ⟨main, -, ⟨-, rfl⟩ | ⟨f', fiber, heq, -, rfl⟩⟩ := yield_cases h
  · rfl
  · refine Function.update_of_ne ?_ _ _
    rintro rfl
    exact hthis heq

end Frames

section Simulation

omit [DecidableEq W] in
/-- The places of the code that waits are those that the fiber has. -/
theorem Fits.congr (h : Fits a f x status)
    (hsuspended : ∀ k, status = some (.suspended k) → b.place (.body f k) = a.place (.body f k)) :
    Fits b f x status := by
  cases h with
  | absent => exact .absent
  | new func => exact .new func
  | suspended k func state hstate =>
      rw [← hsuspended k rfl]
      exact .suspended k func state hstate
  | running k fiber hctx => exact .running k fiber hctx
  | ended => exact .ended

theorem Fits.execute (h : Fits a f x (a.status f)) (hactive : a.active w = some c) :
    Fits (a.execute c) f x (a.status f) := by
  apply h.congr
  intro k hsuspended
  refine Function.update_of_ne ?_ _ _
  rintro rfl
  rcases Coroutine.active_cases hactive with ⟨-, heq⟩ | ⟨f', k', -, hrunning, heq⟩
  · cases heq
  · cases heq
    cases hsuspended.symm.trans hrunning

omit [DecidableEq W] in
/-- What may be reset or destroyed is what may be given another body. -/
theorem Fits.idle (h : Fits a f x status) (hout : ∀ k, status ≠ some (.running k)) :
    (x.any fun fiber => fiber.state.resettable) = status.any Status.idle := by
  cases h with
  | absent => rfl
  | new func => rfl
  | suspended k func state hstate =>
      rcases hstate with rfl | rfl
      · rfl
      · rfl
  | running k fiber hctx => exact absurd rfl (hout k)
  | ended => rfl

omit [DecidableEq W] in
/-- A fiber that may be resumed is a coroutine that waits. -/
theorem Fits.waiting {fiber : Fiber W} (h : Fits a f (some fiber) status)
    (hout : ∀ k, status ≠ some (.running k)) (hended : fiber.state.isTerminate = false)
    (hfunc : fiber.state = .init → fiber.func ≠ none) :
    ∃ k, status.bind Status.waiting = some k ∧
      ((fiber.ctx = .mainFunc ∧ fiber.func = some k ∧ status = some (.new (some k))) ∨
        fiber.ctx = .code (.body f k) (a.place (.body f k))) := by
  cases h with
  | new func =>
      obtain ⟨k, hk⟩ := Option.ne_none_iff_exists'.mp (hfunc rfl)
      dsimp only at hk
      exact ⟨k, hk, Or.inl ⟨rfl, hk, by rw [hk]⟩⟩
  | suspended k func state hstate => exact ⟨k, rfl, Or.inr rfl⟩
  | running k fiber hctx => exact absurd rfl (hout k)
  | ended => cases hended

omit [DecidableEq W] in
/-- `GetThis` is the coroutine that the worker is in. -/
theorem Runs.current_iff (h : Runs s a w) : s.current w = some (.fiber f) ↔ a.within w = some f := by
  cases h with
  | own hnone _ hcurrent =>
      rw [hnone]
      rcases hcurrent with ⟨hthis, -⟩ | ⟨hthis, -⟩
      · simp [hthis]
      · simp [hthis]
  | body f' k main fiber position hsome _ hcurrent _ _ _ _ _ => simp [hsome, hcurrent]

omit [DecidableEq W] in
/-- What there is of a thread whose worker is in a coroutine. -/
theorem Runs.inside (h : Runs s a w) (hwithin : a.within w = some f) : ∃ k main fiber position,
    a.status f = some (.running k) ∧ s.threadFiber w = some main ∧
      main.ctx = .code (.own w) (a.place (.own w)) ∧ s.fibers f = some fiber ∧
        s.running w = some position ∧ Within f k (a.place (.body f k)) position fiber := by
  cases h with
  | own hnone _ _ => cases hnone.symm.trans hwithin
  | body f' k main fiber position hsome hstatus _ hmain hctx hfiber hrunning hposition =>
      cases hsome.symm.trans hwithin
      exact ⟨k, main, fiber, position, hstatus, hmain, hctx, hfiber, hrunning, hposition⟩

omit [DecidableEq W] in
/-- The thread is at a step of the code that its worker runs. -/
theorem Runs.active (h : Runs s a w) (hat : s.At w c n) : a.active w = some c ∧ n = a.place c := by
  cases h with
  | own hwithin hown _ =>
      have hactive := Coroutine.active_own hwithin
      rcases hat with hat | ⟨this, back, hat⟩
      · rcases hown with hown | hown
        · cases hown.symm.trans hat
          exact ⟨hactive, rfl⟩
        · cases hown.symm.trans hat
      · rcases hown with hown | hown
        · cases hown.symm.trans hat
        · cases hown.symm.trans hat
          exact ⟨hactive, rfl⟩
  | body f k main fiber position hwithin hstatus _ _ _ _ hrunning hposition =>
      have hactive := Coroutine.active_body hwithin hstatus
      rcases hat with hat | ⟨this, back, hat⟩
      · cases hrunning.symm.trans hat
        cases hposition
        exact ⟨hactive, rfl⟩
      · cases hrunning.symm.trans hat
        cases hposition
        · exact ⟨hactive, rfl⟩
        · exact ⟨hactive, rfl⟩

omit [DecidableEq W] in
/-- A thread and a worker that the step leaves alone. -/
theorem Runs.congr (h : Runs s a w) (hrunning : t.running w = s.running w)
    (hcurrent : t.current w = s.current w) (hmain : t.threadFiber w = s.threadFiber w)
    (hwithin : b.within w = a.within w) (hown : b.place (.own w) = a.place (.own w))
    (hbody : ∀ f k, a.within w = some f → a.status f = some (.running k) →
      t.fibers f = s.fibers f ∧ b.status f = a.status f ∧
        b.place (.body f k) = a.place (.body f k)) : Runs t b w := by
  cases h with
  | own hnone hplace hthis =>
      refine .own (hwithin.trans hnone) ?_ ?_
      · rw [hrunning, hown]
        exact hplace
      · rw [hcurrent, hmain]
        exact hthis
  | body f k main fiber position hsome hstatus hthis hthread hctx hfiber hplace hposition =>
      obtain ⟨hkept, hsame, hat⟩ := hbody f k hsome hstatus
      refine .body f k main fiber position (hwithin.trans hsome) (hsame.trans hstatus)
        (hcurrent.trans hthis) (hmain.trans hthread) ?_ (hkept.trans hfiber) (hrunning.trans hplace) ?_
      · rw [hctx, hown]
      · rw [hat]
        exact hposition

/-- The thread has gone on in the code where it was. -/
theorem Runs.stay (h : Runs s a w) (hat : s.running w = some (.ctx (.code c n)))
    (hrunning : t.running w = some (.ctx (.code c (n + 1)))) (hcurrent : t.current w = s.current w)
    (hmain : t.threadFiber w = s.threadFiber w) (hwithin : b.within w = a.within w)
    (hplace : b.place = Function.update a.place c (a.place c + 1))
    (hbody : ∀ f k, a.within w = some f → a.status f = some (.running k) →
      t.fibers f = s.fibers f ∧ b.status f = a.status f) : Runs t b w := by
  obtain ⟨-, rfl⟩ := h.active (Or.inl hat)
  cases h with
  | own hnone hown hthis =>
      rcases hown with hown | hown
      · cases hown.symm.trans hat
        refine .own (hwithin.trans hnone) (Or.inl ?_) ?_
        · rw [hrunning, hplace, Function.update_self]
        · rw [hcurrent, hmain]
          exact hthis
      · cases hown.symm.trans hat
  | body f k main fiber position hsome hrun hthis hthread hctx hfiber hposition hinside =>
      cases hposition.symm.trans hat
      cases hinside with
      | code ctx func =>
          obtain ⟨hkept, hsame⟩ := hbody f k hsome hrun
          refine .body f k main ⟨.exec, ctx, func⟩ _ (hwithin.trans hsome) (hsame.trans hrun)
            (hcurrent.trans hthis) (hmain.trans hthread) ?_ (hkept.trans hfiber) hrunning ?_
          · have hne : Code.own w ≠ Code.body f k := fun heq => by cases heq
            rw [hctx, hplace, Function.update_of_ne hne]
          · rw [hplace, Function.update_self]
            exact .code ctx func

/-- A step of the coroutines that the threads take. -/
theorem Simulates.of_step {m : Coroutine.Act} (h : Simulates s a) (ha : Coroutine.Inv a)
    (hat : s.At w c n) (hframe : Frame { s with log := s.log ++ [(c, n)] } w t)
    (hkept : ∀ w' f, w' ≠ w → s.current w' = some (.fiber f) → t.fibers f = s.fibers f)
    (hact : (a.execute c).act w m = some b) (hmade : b.made = t.fiberId)
    (hbodies : b.bodies = t.callbacks) (hfibers : ∀ f, Fits b f (t.fibers f) (b.status f))
    (hself : Runs t b w) : Simulates t b := by
  obtain ⟨hactive, rfl⟩ := (h.threads w).active hat
  obtain ⟨hplace, hlog, hothers⟩ := (ha.execute hactive).frame hact
  refine ⟨hmade, hbodies, ?_, hfibers, fun w' => ?_⟩
  · rw [hframe.log, hlog]
    exact congrArg (· ++ [(c, a.place c)]) h.log
  · by_cases hw : w' = w
    · exact hw ▸ hself
    · obtain ⟨hrunning, hcurrent, hmain⟩ := hframe.others w' hw
      obtain ⟨hwithin, hstatus⟩ := hothers w' hw
      refine (h.threads w').congr hrunning hcurrent hmain hwithin ?_ fun f k hsome hrun => ⟨?_, ?_, ?_⟩
      · rw [hplace]
        refine Function.update_of_ne ?_ _ _
        rintro rfl
        rcases Coroutine.active_cases hactive with ⟨-, heq⟩ | ⟨f, k, -, -, heq⟩
        · cases heq
          exact hw rfl
        · cases heq
      · exact hkept w' f hw ((h.threads w').current_iff.mpr hsome)
      · exact hstatus f k hsome hrun
      · rw [hplace]
        refine Function.update_of_ne ?_ _ _
        rintro rfl
        rcases Coroutine.active_cases hactive with ⟨-, heq⟩ | ⟨f', k', hsome', -, heq⟩
        · cases heq
        · cases heq
          exact hw (ha.single w' w f hsome hsome')

omit [DecidableEq W] in
theorem Fits.of_place (h : Fits a f x status) (hplace : b.place = a.place) : Fits b f x status :=
  h.congr fun _ _ => congrFun hplace _

omit [DecidableEq W] in
/-- One fiber changes. -/
theorem fits_update {fibers : Nat → Option (Fiber W)} {statuses : Nat → Option Status}
    (h : ∀ f, Fits a f (fibers f) (statuses f)) (hplace : b.place = a.place) (hf : Fits a f x status)
    (f' : Nat) : Fits b f' (Function.update fibers f x f') (Function.update statuses f status f') := by
  by_cases hne : f' = f
  · subst hne
    rw [Function.update_self, Function.update_self]
    exact hf.of_place hplace
  · rw [Function.update_of_ne hne, Function.update_of_ne hne]
    exact (h f').of_place hplace

/-- No worker is in the coroutine of a fiber that has switched out. -/
theorem Simulates.not_running (h : Simulates s a) (ha : Coroutine.Inv a)
    (hswitched : ∀ w, s.current w ≠ some (.fiber f)) (k : Nat) : a.status f ≠ some (.running k) := by
  intro hrun
  obtain ⟨w, hwithin⟩ := (ha.running f).mp ⟨k, hrun⟩
  exact hswitched w ((h.threads w).current_iff.mpr hwithin)

/-- The fiber that the thread is in has been made. -/
theorem Simulates.made (h : Simulates s a) (ha : Coroutine.Inv a) (hcurrent : s.current w = some (.fiber f)) :
    f ≠ s.fiberId + 1 := by
  rintro rfl
  obtain ⟨k, hrun⟩ := (ha.running _).mpr ⟨w, (h.threads w).current_iff.mp hcurrent⟩
  have hle := ha.made_of_status hrun
  rw [h.fiberId] at hle
  exact absurd hle (Nat.not_succ_le_self _)

section Steps

variable {act : Act} (h : Simulates s a) (ha : Coroutine.Inv a)
  (hat : s.running w = some (.ctx (.code c n))) (hproper : s.Proper (w, act))
  (hperform : { s with log := s.log ++ [(c, n)] }.perform w c (n + 1) act = some t)
include h ha hat hproper hperform

/-- The fibers that the other threads are in stay as they are. -/
theorem perform_kept : ∀ w' f, w' ≠ w → s.current w' = some (.fiber f) → t.fibers f = s.fibers f := by
  intro w' f hw hcurrent
  have hsome := (h.threads w').current_iff.mp hcurrent
  refine perform_fibers (s := { s with log := s.log ++ [(c, n)] }) hperform (h.made ha hcurrent)
    (fun htarget => hproper.switched f htarget w' hcurrent) (fun hthis => ?_) ?_
  · exact hw (ha.single w' w f hsome ((h.threads w).current_iff.mp hthis))
  · rintro k rfl
    have hactive := ((h.threads w).active (Or.inl hat)).1
    rcases Coroutine.active_cases hactive with ⟨-, heq⟩ | ⟨f', k', hsome', -, heq⟩
    · cases heq
    · cases heq
      exact hw (ha.single w' w f hsome hsome')

/-- The steps after which the thread goes on where it is. -/
theorem simulates_stay {m : Coroutine.Act} (hact : (a.execute c).act w m = some b)
    (hmade : b.made = t.fiberId) (hbodies : b.bodies = t.callbacks)
    (hfibers : ∀ f, Fits b f (t.fibers f) (b.status f))
    (hrunning : t.running w = some (.ctx (.code c (n + 1)))) (hcurrent : t.current w = s.current w)
    (hmain : t.threadFiber w = s.threadFiber w) (hwithin : b.within w = a.within w)
    (hself : ∀ f, s.current w = some (.fiber f) → t.fibers f = s.fibers f)
    (hstatus : ∀ f k, a.within w = some f → a.status f = some (.running k) → b.status f = a.status f) :
    ∃ m b, Coroutine.State.Step a m b ∧ Simulates t b := by
  have hactive := ((h.threads w).active (Or.inl hat)).1
  refine ⟨(w, m), b, Option.bind_eq_some_iff.mpr ⟨c, hactive, hact⟩,
    h.of_step ha (Or.inl hat) (perform_frame hperform) (perform_kept h ha hat hproper hperform) hact hmade
      hbodies hfibers ?_⟩
  refine (h.threads w).stay hat hrunning hcurrent hmain hwithin ((ha.execute hactive).frame hact).1
    fun f k hsome hrun => ⟨hself f ((h.threads w).current_iff.mpr hsome), hstatus f k hsome hrun⟩

theorem simulate_plain (hplain : act = .work ∨ act = .create ∨
      (∃ f empty, act = .reset f empty) ∨ ∃ f, act = .destroy f) :
    ∃ m b, Coroutine.State.Step a m b ∧ Simulates t b := by
  obtain ⟨hactive, -⟩ := (h.threads w).active (Or.inl hat)
  have hfits : ∀ f, Fits (a.execute c) f (s.fibers f) (a.status f) := fun f => (h.fibers f).execute hactive
  have hself : ∀ there, Function.update s.running w (some there) w = some there :=
    fun there => Function.update_self _ _ _
  have hidle : ∀ {f}, act.target = some f →
      (s.fibers f).any (fun fiber => fiber.state.resettable) = true →
        (a.status f).any Status.idle = true := by
    intro f htarget hany
    rwa [← (h.fibers f).idle (h.not_running ha (hproper.switched f htarget))]
  have hin : ∀ {f f' fiber}, act.target = some f → s.current w = some (.fiber f') →
      Function.update s.fibers f fiber f' = s.fibers f' := by
    intro f f' fiber htarget hcurrent
    refine Function.update_of_ne ?_ _ _
    rintro rfl
    exact hproper.switched f' htarget w hcurrent
  have hother : ∀ {f f' k status}, (a.status f).any Status.idle = true → a.status f' = some (.running k) →
      Function.update a.status f status f' = a.status f' := by
    intro f f' k status hany hrun
    refine Function.update_of_ne ?_ _ _
    rintro rfl
    rw [hrun] at hany
    cases hany
  rcases hplain with rfl | rfl | ⟨f, empty, rfl⟩ | ⟨f, rfl⟩
  · have hperform' := hperform
    cases hperform
    exact simulates_stay h ha hat hproper hperform' (m := .work) rfl h.fiberId h.callbacks hfits (hself _)
      rfl rfl rfl (fun _ _ => rfl) fun _ _ _ _ => rfl
  · have hperform' := hperform
    rw [State.perform] at hperform
    split at hperform
    · cases hperform
    · cases hperform
      refine simulates_stay h ha hat hproper hperform' (m := .create) rfl (congrArg (· + 1) h.fiberId) ?_ ?_
        (hself _) rfl rfl rfl (fun f hcurrent => ?_) fun f k hwithin hrun => ?_
      · change Function.update a.bodies (a.made + 1) 1 = Function.update s.callbacks (s.fiberId + 1) 1
        rw [h.callbacks, h.fiberId]
      · change ∀ f', Fits _ f' (Function.update s.fibers (s.fiberId + 1) _ f')
          (Function.update a.status (a.made + 1) _ f')
        rw [h.fiberId]
        exact fits_update hfits rfl (.new (some 0))
      · exact Function.update_of_ne (h.made ha hcurrent) _ _
      · refine Function.update_of_ne ?_ _ _
        rintro rfl
        cases ((ha.unmade (a.made + 1) (Nat.lt_succ_self _)).1).symm.trans hrun
  · have hperform' := hperform
    rw [State.perform] at hperform
    split at hperform
    · next hany =>
      cases hperform
      have hact : (a.execute c).act w (.give f empty) = some
          { (a.execute c).setStatus f (some (.new (if empty then none else some (a.bodies f)))) with
            bodies := Function.update a.bodies f (a.bodies f + 1) } := if_pos (hidle rfl hany)
      refine simulates_stay h ha hat hproper hperform' hact h.fiberId ?_ ?_ (hself _) rfl rfl rfl
        (fun f' hcurrent => hin rfl hcurrent) fun f' k hwithin hrun => hother (hidle rfl hany) hrun
      · change Function.update a.bodies f (a.bodies f + 1)
          = Function.update s.callbacks f (s.callbacks f + 1)
        rw [h.callbacks]
      · rw [h.callbacks]
        exact fits_update hfits rfl (.new _)
    · cases hperform
  · have hperform' := hperform
    rw [State.perform] at hperform
    split at hperform
    · next hany =>
      cases hperform
      have hact : (a.execute c).act w (.discard f) = some ((a.execute c).setStatus f none) :=
        if_pos (hidle rfl hany)
      exact simulates_stay h ha hat hproper hperform' hact h.fiberId h.callbacks
        (fits_update hfits rfl .absent) (hself _) rfl rfl rfl (fun f' hcurrent => hin rfl hcurrent)
        fun f' k hwithin hrun => hother (hidle rfl hany) hrun
    · cases hperform

end Steps

section Steps

variable (h : Simulates s a) (ha : Coroutine.Inv a) (hat : s.running w = some (.ctx (.code c n)))
include h ha hat

theorem simulate_enableFiber (hproper : s.Proper (w, .enableFiber))
    (hperform : { s with log := s.log ++ [(c, n)] }.perform w c (n + 1) .enableFiber = some t) :
    ∃ m b, Coroutine.State.Step a m b ∧ Simulates t b := by
  obtain ⟨hactive, rfl⟩ := (h.threads w).active (Or.inl hat)
  have hfits : ∀ f, Fits (a.execute c) f (s.fibers f) (a.status f) := fun f => (h.fibers f).execute hactive
  have hperform' := hperform
  rw [State.perform] at hperform
  split at hperform
  · next hnone =>
    cases hperform
    refine ⟨(w, .work), a.execute c, Option.bind_eq_some_iff.mpr ⟨c, hactive, rfl⟩,
      h.of_step ha (Or.inl hat) (perform_frame hperform') (fun _ _ _ _ => rfl) (m := .work) rfl h.fiberId
        h.callbacks hfits ?_⟩
    cases h.threads w with
    | own hwithin hown hthis =>
        cases (Coroutine.active_own hwithin).symm.trans hactive
        refine .own hwithin (Or.inl ?_) (Or.inr ⟨Function.update_self _ _ _, ?_⟩)
        · change Function.update s.running w _ w
            = some (.ctx (.code _ ((a.execute (.own w)).place (.own w))))
          rw [Function.update_self, Coroutine.place_self]
        · exact ⟨_, _, Function.update_self _ _ _, rfl⟩
    | body f k main fiber position hwithin hstatus hcurrent _ _ _ _ _ =>
        change (s.current w).isNone = true at hnone
        rw [hcurrent] at hnone
        cases hnone
  · cases hperform
    exact simulates_stay h ha hat hproper hperform' (m := .work) rfl h.fiberId h.callbacks hfits
      (Function.update_self _ _ _) rfl rfl rfl (fun _ _ => rfl) fun _ _ _ _ => rfl

theorem simulate_resume (hproper : s.Proper (w, .resume f))
    (hperform : { s with log := s.log ++ [(c, n)] }.perform w c (n + 1) (.resume f) = some t) :
    ∃ m b, Coroutine.State.Step a m b ∧ Simulates t b := by
  have hkept := perform_kept h ha hat hproper hperform
  obtain ⟨hactive, rfl⟩ := (h.threads w).active (Or.inl hat)
  have hfits : ∀ f, Fits (a.execute c) f (s.fibers f) (a.status f) := fun f => (h.fibers f).execute hactive
  obtain ⟨w', n', hown⟩ := hproper.caller f rfl
  have hperform' := hperform
  obtain ⟨fiber, main, hfiber, hmain, -, rfl⟩ := resume_cases hperform
  change s.fibers f = some fiber at hfiber
  obtain ⟨hended, hfunc⟩ := hproper.ready f fiber rfl hfiber
  have hfit := hfits f
  rw [hfiber] at hfit
  obtain ⟨k, hwaiting, hplace⟩ :=
    hfit.waiting (h.not_running ha (hproper.switched f rfl)) hended hfunc
  -- only its own code is before a thread that resumes
  obtain ⟨hwithin, rfl⟩ : a.within w = none ∧ c = .own w := by
    rcases Coroutine.active_cases hactive with hnone | ⟨f', k', -, -, rfl⟩
    · exact hnone
    · cases hown.symm.trans hat
  have hact : (a.execute (.own w)).act w (.resume f) = some
      (((a.execute (.own w)).setStatus f (some (.running k))).setWithin w (some f)) := by
    rw [Coroutine.State.act]
    have hwaiting' : ((a.execute (.own w)).status f).bind Status.waiting = some k := hwaiting
    have hwithin' : (a.execute (.own w)).within w = none := hwithin
    rw [hwithin', hwaiting']
  refine ⟨(w, .resume f), _, Option.bind_eq_some_iff.mpr ⟨_, hactive, hact⟩,
    h.of_step ha (Or.inl hat) (perform_frame hperform') hkept hact h.fiberId h.callbacks ?_ ?_⟩
  · refine fits_update hfits rfl (.running k { fiber with state := .exec } ?_)
    rcases hplace with ⟨hctx, -, -⟩ | hctx
    · exact Or.inl hctx
    · exact Or.inr ⟨_, hctx⟩
  · have hother : Code.body f k ≠ Code.own w := fun heq => by cases heq
    have hsame : (a.execute (.own w)).place (.body f k) = a.place (.body f k) :=
      Coroutine.place_of_ne hother a
    refine .body f k { main with ctx := .code (.own w) (a.place (.own w) + 1) } { fiber with state := .exec }
      (.ctx fiber.ctx) (Function.update_self _ _ _) (Function.update_self _ _ _) (Function.update_self _ _ _)
      (Function.update_self _ _ _) ?_ (Function.update_self _ _ _) (Function.update_self _ _ _) ?_
    · exact congrArg (Context.code (.own w)) (Coroutine.place_self a (.own w)).symm
    · obtain ⟨state, ctx, func⟩ := fiber
      rcases hplace with ⟨hctx, hk, hstatus⟩ | hctx
      · dsimp only at hctx hk
        subst hctx hk
        exact .mainFunc _ (hsame.trans (ha.new f k hstatus))
      · dsimp only at hctx
        subst hctx
        change Within f k (a.execute (.own w) |>.place (.body f k))
          (.ctx (.code (.body f k) ((a.execute (.own w)).place (.body f k)))) _
        exact .code _ func

/-- The code of the fiber calls `Yield`, and the thread is still in it. -/
theorem simulate_call {act : Act} {fiber fiber' : Fiber W} {position : Position W}
    (hproper : s.Proper (w, act)) (hwithin : a.within w = some f) (hrun : a.status f = some (.running k))
    (hfiber : s.fibers f = some fiber) (hctx : fiber'.ctx = fiber.ctx)
    (hposition : Within f k (n + 1) position fiber')
    (hperform : { s with log := s.log ++ [(c, n)] }.perform w c (n + 1) act = some
      (({ s with log := s.log ++ [(c, n)] }.setFiber f (some fiber')).goTo w position)) :
    ∃ m b, Coroutine.State.Step a m b ∧
      Simulates (({ s with log := s.log ++ [(c, n)] }.setFiber f (some fiber')).goTo w position) b := by
  have hkept := perform_kept h ha hat hproper hperform
  obtain ⟨hactive, rfl⟩ := (h.threads w).active (Or.inl hat)
  have hfits : ∀ f, Fits (a.execute c) f (s.fibers f) (a.status f) := fun f => (h.fibers f).execute hactive
  have hc : c = .body f k := Option.some.inj (hactive.symm.trans (Coroutine.active_body hwithin hrun))
  subst hc
  refine ⟨(w, .work), a.execute (.body f k), Option.bind_eq_some_iff.mpr ⟨_, hactive, rfl⟩,
    h.of_step ha (Or.inl hat) (perform_frame hperform) hkept (m := .work) rfl h.fiberId h.callbacks ?_ ?_⟩
  · have hfit := hfits f
    rw [hfiber, hrun] at hfit
    have hfit' : Fits (a.execute (.body f k)) f (some fiber') (some (.running k)) := by
      cases hfit with
      | running k fiber hsaved => exact .running k fiber' (by rwa [hctx])
    intro f'
    have hupdate := fits_update hfits rfl hfit' f'
    rwa [← hrun, Function.update_eq_self] at hupdate
  · obtain ⟨-, main, -, -, -, hmain, hsaved, -⟩ := (h.threads w).inside hwithin
    have hne : Code.own w ≠ Code.body f k := fun heq => by cases heq
    refine .body f k main _ position hwithin hrun ((h.threads w).current_iff.mpr hwithin) hmain ?_
      (Function.update_self _ _ _) (Function.update_self _ _ _) ?_
    · rw [hsaved, Coroutine.place_of_ne hne]
    · rw [Coroutine.place_self]
      exact hposition

theorem simulate_yieldTo {state : FiberState} {act : Act} (hproper : s.Proper (w, act))
    (hstate : state = .hold ∨ state = .ready)
    (hyield : { s with log := s.log ++ [(c, n)] }.perform w c (n + 1) act
      = { s with log := s.log ++ [(c, n)] }.yieldTo w c (n + 1) state)
    (hperform : { s with log := s.log ++ [(c, n)] }.perform w c (n + 1) act = some t) :
    ∃ m b, Coroutine.State.Step a m b ∧ Simulates t b := by
  have hkept := perform_kept h ha hat hproper hperform
  obtain ⟨hactive, rfl⟩ := (h.threads w).active (Or.inl hat)
  rcases yieldTo_cases (hyield.symm.trans hperform) with
    ⟨main, hcurrent, hmain, rfl⟩ | ⟨f, fiber, hcurrent, hfiber, rfl⟩
  · have hfits : ∀ f, Fits (a.execute c) f (s.fibers f) (a.status f) :=
      fun f => (h.fibers f).execute hactive
    refine ⟨(w, .work), _, Option.bind_eq_some_iff.mpr ⟨_, hactive, rfl⟩,
      h.of_step ha (Or.inl hat) (perform_frame hperform) hkept (m := .work) rfl h.fiberId h.callbacks
        hfits ?_⟩
    cases h.threads w with
    | own hwithin hown hthis =>
        cases (Coroutine.active_own hwithin).symm.trans hactive
        refine .own hwithin (Or.inr ?_) (Or.inr ⟨hcurrent, ?_⟩)
        · rw [Coroutine.place_self]
          exact Function.update_self _ _ _
        · rcases hthis with ⟨hnone, -⟩ | ⟨-, main', n', hmain', hctx⟩
          · cases hcurrent.symm.trans hnone
          · cases hmain'.symm.trans hmain
            exact ⟨_, n', Function.update_self _ _ _, hctx⟩
    | body f k main' fiber position hwithin hstatus hthis _ _ _ _ _ => cases hcurrent.symm.trans hthis
  · have hwithin := (h.threads w).current_iff.mp hcurrent
    obtain ⟨k, hrun⟩ := (ha.running f).mpr ⟨w, hwithin⟩
    have hc : c = .body f k := Option.some.inj (hactive.symm.trans (Coroutine.active_body hwithin hrun))
    subst hc
    exact simulate_call h ha hat hproper hwithin hrun hfiber rfl (.yield _ _ _ hstate) hperform

theorem simulate_finish (hproper : s.Proper (w, .finish))
    (hperform : { s with log := s.log ++ [(c, n)] }.perform w c (n + 1) .finish = some t) :
    ∃ m b, Coroutine.State.Step a m b ∧ Simulates t b := by
  have hactive := ((h.threads w).active (Or.inl hat)).1
  have hperform' := hperform
  rcases Coroutine.active_cases hactive with ⟨-, rfl⟩ | ⟨f, k, hwithin, hrun, rfl⟩
  · cases hperform
  · obtain ⟨fiber, hfiber, rfl⟩ := finish_cases hperform
    exact simulate_call h ha hat hproper hwithin hrun hfiber rfl (.finish _) hperform'

end Steps

/-- The thread switches to its own code. -/
theorem simulate_leave {m : Coroutine.Act} {main fiber : Fiber W} {left : Status} (h : Simulates s a)
    (ha : Coroutine.Inv a) (hat : s.At w (.body f k) n) (hwithin : a.within w = some f)
    (hrun : a.status f = some (.running k)) (hmain : s.threadFiber w = some main)
    (hctx : main.ctx = .code (.own w) (a.place (.own w)))
    (hyield : { s with log := s.log ++ [(Code.body f k, n)] }.yield w (.fiber f) back = some t)
    (ht : t = (({ s with log := s.log ++ [(Code.body f k, n)] }.setThis w .main).setFiber f
      (some fiber)).goTo w (.ctx main.ctx))
    (hact : (a.execute (.body f k)).act w m = some
      (((a.execute (.body f k)).setStatus f (some left)).setWithin w none))
    (hfit : Fits (a.execute (.body f k)) f (some fiber) (some left)) :
    ∃ m b, Coroutine.State.Step a m b ∧ Simulates t b := by
  have hactive := Coroutine.active_body hwithin hrun
  have hfits : ∀ f', Fits (a.execute (.body f k)) f' (s.fibers f') (a.status f') :=
    fun f' => (h.fibers f').execute hactive
  have hkept : ∀ w' f', w' ≠ w → s.current w' = some (.fiber f') → t.fibers f' = s.fibers f' := by
    intro w' f' hw hcurrent
    refine yield_fibers (s := { s with log := s.log ++ [(Code.body f k, n)] }) hyield ?_
    rintro heq
    cases heq
    exact hw (ha.single w' w f ((h.threads w').current_iff.mp hcurrent) hwithin)
  have hframe := yield_frame hyield
  subst ht
  refine ⟨(w, m), _, Option.bind_eq_some_iff.mpr ⟨_, hactive, hact⟩,
    h.of_step ha hat hframe hkept hact h.fiberId h.callbacks (fits_update hfits rfl hfit) ?_⟩
  have hne : Code.own w ≠ Code.body f k := fun heq => by cases heq
  refine .own (Function.update_self _ _ _) (Or.inl ?_) (Or.inr ⟨Function.update_self _ _ _, ?_⟩)
  · change Function.update s.running w (some (.ctx main.ctx)) w
      = some (.ctx (.code (.own w) ((a.execute (.body f k)).place (.own w))))
    rw [Function.update_self, Coroutine.place_of_ne hne, hctx]
  · exact ⟨main, _, hmain, hctx⟩

theorem simulate_yield (h : Simulates s a) (ha : Coroutine.Inv a)
    (hat : s.running w = some (.yield c n this back))
    (hyield : { s with log := s.log ++ [(c, n)] }.yield w this back = some t) :
    ∃ m b, Coroutine.State.Step a m b ∧ Simulates t b := by
  have hat' : s.At w c n := Or.inr ⟨this, back, hat⟩
  obtain ⟨hactive, hn⟩ := (h.threads w).active hat'
  have hyield' := hyield
  cases h.threads w with
  | own hwithin hown hthis =>
      rcases hown with hown | hown
      · cases hown.symm.trans hat
      · cases hown.symm.trans hat
        have hact : (a.execute (.own w)).act w .yield = some (a.execute (.own w)) := by
          have hwithin' : (a.execute (.own w)).within w = none := hwithin
          rw [Coroutine.State.act, hwithin']
        obtain ⟨main, hmain, ⟨-, rfl⟩ | ⟨f, fiber, hf, -, -⟩⟩ := yield_cases hyield
        · refine ⟨(w, .yield), _, Option.bind_eq_some_iff.mpr ⟨_, hactive, hact⟩,
            h.of_step ha hat' (yield_frame hyield') (fun _ _ _ _ => rfl) hact h.fiberId h.callbacks
              (fun f => (h.fibers f).execute hactive) ?_⟩
          refine .own hwithin (Or.inl ?_) (Or.inr ⟨Function.update_self _ _ _, ?_⟩)
          · rw [Coroutine.place_self]
            exact Function.update_self _ _ _
          · exact ⟨_, _, Function.update_self _ _ _, rfl⟩
        · cases hf
  | body f k main fiber position hwithin hrun hcurrent hmain hctx hfiber hrunning hposition =>
      cases hrunning.symm.trans hat
      have hwithin' : (a.execute (.body f k)).within w = some f := hwithin
      have hrun' : (a.execute (.body f k)).status f = some (.running k) := hrun
      cases hposition with
      | yield ctx func state hstate =>
          obtain ⟨main', hmain', ⟨hf, -⟩ | ⟨f', fiber', hf, hfiber', ht⟩⟩ := yield_cases hyield
          · cases hf
          · cases hf
            cases hmain'.symm.trans hmain
            cases hfiber'.symm.trans hfiber
            have hact : (a.execute (.body f k)).act w .yield = some
                (((a.execute (.body f k)).setStatus f (some (.suspended k))).setWithin w none) := by
              rw [Coroutine.State.act, hwithin']
              dsimp only
              rw [hrun']
            refine simulate_leave h ha hat' hwithin hrun hmain hctx hyield ht hact ?_
            rw [← Coroutine.place_self a (.body f k)]
            exact .suspended k func state hstate
      | finish ctx =>
          obtain ⟨main', hmain', ⟨hf, -⟩ | ⟨f', fiber', hf, hfiber', ht⟩⟩ := yield_cases hyield
          · cases hf
          · cases hf
            cases hmain'.symm.trans hmain
            cases hfiber'.symm.trans hfiber
            refine simulate_leave (m := .finish) h ha hat' hwithin hrun hmain hctx hyield ht ?_ .ended
            rw [Coroutine.State.act, hwithin']

/-- `MainFunc` begins with the callback, of which nothing has been executed yet. -/
theorem simulate_enter (h : Simulates s a) (hat : s.running w = some (.ctx .mainFunc))
    (henter : s.mainFunc w = some t) : Simulates t a := by
  cases h.threads w with
  | own _ hown _ =>
      rcases hown with hown | hown
      · cases hat.symm.trans hown
      · cases hat.symm.trans hown
  | body f k main fiber position hwithin hstatus hcurrent hmain hctx hfiber hrunning hposition =>
      cases hrunning.symm.trans hat
      cases hposition with
      | mainFunc ctx hzero =>
          rw [State.mainFunc, hcurrent] at henter
          dsimp only at henter
          rw [hfiber] at henter
          cases henter
          refine ⟨h.fiberId, h.callbacks, h.log, h.fibers, fun w' => ?_⟩
          by_cases hw : w' = w
          · subst hw
            refine .body f k main _ _ hwithin hstatus hcurrent hmain hctx hfiber
              (Function.update_self _ _ _) ?_
            rw [hzero]
            exact .code ctx (some k)
          · exact (h.threads w').congr (Function.update_of_ne hw _ _) rfl rfl rfl rfl
              fun f k _ _ => ⟨rfl, rfl, rfl⟩

theorem simulate {l : W × Act} (h : Simulates s a) (ha : Coroutine.Inv a) (hproper : s.Proper l)
    (hstep : s.step l = some t) :
    Simulates t a ∨ ∃ m b, Coroutine.State.Step a m b ∧ Simulates t b := by
  obtain ⟨w, act⟩ := l
  rw [State.step] at hstep
  split at hstep
  · next c n hat =>
    refine Or.inr ?_
    cases act with
    | work => exact simulate_plain h ha hat hproper hstep (Or.inl rfl)
    | enableFiber => exact simulate_enableFiber h ha hat hproper hstep
    | create => exact simulate_plain h ha hat hproper hstep (Or.inr (Or.inl rfl))
    | reset f empty =>
        exact simulate_plain h ha hat hproper hstep (Or.inr (Or.inr (Or.inl ⟨f, empty, rfl⟩)))
    | destroy f => exact simulate_plain h ha hat hproper hstep (Or.inr (Or.inr (Or.inr ⟨f, rfl⟩)))
    | resume f => exact simulate_resume h ha hat hproper hstep
    | yieldToHold => exact simulate_yieldTo h ha hat hproper (Or.inl rfl) rfl hstep
    | yieldToReady => exact simulate_yieldTo h ha hat hproper (Or.inr rfl) rfl hstep
    | finish => exact simulate_finish h ha hat hproper hstep
    | switch | enter | exit => cases hstep
  · next c n this back hat =>
    split at hstep
    · exact Or.inr (simulate_yield h ha hat hstep)
    · cases hstep
  · next hat =>
    split at hstep
    · exact Or.inl (simulate_enter h hat hstep)
    · cases hstep
  · next hat =>
    cases h.threads w with
    | own _ hown _ =>
        rcases hown with hown | hown
        · cases hat.symm.trans hown
        · cases hat.symm.trans hown
    | body f k main fiber position _ _ _ _ _ _ hrunning hposition =>
        cases hrunning.symm.trans hat
        cases hposition
  · cases hstep

omit [DecidableEq W] in
/-- The coroutines before anything is done. -/
theorem simulates_new (hnew : New s) :
    ∃ a, Coroutine.New a ∧ Simulates s a := by
  refine ⟨⟨0, fun _ => 0, fun _ => none, fun _ => none, fun _ => 0, []⟩,
    ⟨rfl, fun _ => rfl, fun _ => rfl, fun _ => rfl, fun _ => rfl, rfl⟩, ?_⟩
  refine ⟨hnew.fiberId.symm, (funext hnew.callbacks).symm, hnew.log.symm, fun f => ?_, fun w => ?_⟩
  · rw [hnew.fibers f]
    exact .absent
  · exact .own rfl (Or.inl (hnew.running w)) (Or.inl ⟨hnew.current w, hnew.threadFiber w⟩)

end Simulation

section Results

/-- **Fibers are coroutines.** What the threads and fibers do is what workers and coroutines do that keep
their places by themselves. -/
theorem simulates_of_reached (h : Reached s) : ∃ a, Coroutine.Reached a ∧ Simulates s a := by
  refine h.simulated (fun _ hnew => simulates_new hnew) fun s l t a ha hsim hstep => ?_
  exact simulate hsim (Coroutine.inv_of_reached ha) hstep.1 hstep.2

/-- What `simulates_of_reached` says, for the proofs. -/
theorem represented (h : Reached s) : ∃ a, Coroutine.Inv a ∧ Simulates s a := by
  have hsim := h.simulated (fun _ hnew => simulates_new hnew) fun s l t a ha hsim hstep =>
    simulate hsim (Coroutine.inv_of_reached (s := a) ha) hstep.1 hstep.2
  obtain ⟨a, ha, hs⟩ := hsim
  exact ⟨a, Coroutine.inv_of_reached ha, hs⟩

/-- **No step of any code is skipped, repeated or taken out of order**, whichever fiber or thread the code
is of and through whatever switches. -/
theorem in_order (h : Reached s) (c : Code W) :
    Interleaving.lane c s.log = List.range (Interleaving.lane c s.log).length := by
  obtain ⟨a, ha, hsim⟩ := represented h
  have horder := ha.order c
  rw [hsim.log] at horder
  rw [horder, List.length_range]

omit [DecidableEq W] in
/-- `GetThis` is the fiber whose code the thread executes. -/
theorem Simulates.at_of_current (h : Simulates s a) (hcurrent : s.current w = some (.fiber f)) :
    (∃ k n, s.At w (.body f k) n) ∨ s.running w = some (.ctx .mainFunc) := by
  obtain ⟨k, main, fiber, position, -, -, -, -, hrunning, hposition⟩ :=
    (h.threads w).inside ((h.threads w).current_iff.mp hcurrent)
  cases hposition with
  | mainFunc ctx hn => exact Or.inr hrunning
  | code ctx func => exact Or.inl ⟨k, _, Or.inl hrunning⟩
  | yield ctx func state hstate => exact Or.inl ⟨k, _, Or.inr ⟨_, _, hrunning⟩⟩
  | finish ctx => exact Or.inl ⟨k, _, Or.inr ⟨_, _, hrunning⟩⟩

/-- The fibers that are in `EXEC` are those that a thread is in that has not called `Yield`. -/
theorem Simulates.exec_iff {fiber : Fiber W} (h : Simulates s a) (ha : Coroutine.Inv a)
    (hfiber : s.fibers f = some fiber) : fiber.state = .exec ↔
      ∃ w ctx, s.current w = some (.fiber f) ∧ s.running w = some (.ctx ctx) := by
  constructor
  · intro hexec
    have hrun : ∃ k, a.status f = some (.running k) := by
      have hfit := h.fibers f
      rw [hfiber] at hfit
      generalize a.status f = status at hfit
      cases hfit with
      | new func => cases hexec
      | suspended k func state hstate =>
          rcases hstate with rfl | rfl
          · cases hexec
          · cases hexec
      | running k fiber hctx => exact ⟨k, rfl⟩
      | ended => cases hexec
    obtain ⟨w, hwithin⟩ := (ha.running f).mp hrun
    have hcurrent := (h.threads w).current_iff.mpr hwithin
    obtain ⟨k, main, fiber', position, -, -, -, hfiber', hrunning, hposition⟩ :=
      (h.threads w).inside hwithin
    cases hfiber'.symm.trans hfiber
    cases hposition with
    | mainFunc ctx hn => exact ⟨w, _, hcurrent, hrunning⟩
    | code ctx func => exact ⟨w, _, hcurrent, hrunning⟩
    | yield ctx func state hstate =>
        rcases hstate with rfl | rfl
        · cases hexec
        · cases hexec
    | finish ctx => cases hexec
  · rintro ⟨w, ctx, hcurrent, hat⟩
    obtain ⟨k, main, fiber', position, -, -, -, hfiber', hrunning, hposition⟩ :=
      (h.threads w).inside ((h.threads w).current_iff.mp hcurrent)
    cases hfiber'.symm.trans hfiber
    cases hrunning.symm.trans hat
    cases hposition with
    | mainFunc ctx hn => rfl
    | code ctx func => rfl

/-- **`GetThis` is the fiber whose code the thread executes**, and the fibers that are in `EXEC` are those
that a thread is in which is not about to leave, each of them just one. -/
theorem sound_of_reached (h : Reached s) : s.Sound := by
  obtain ⟨a, ha, hsim⟩ := represented h
  refine ⟨fun w f hcurrent => hsim.at_of_current hcurrent, fun w hnot => ?_, fun w w' f hw hw' => ?_,
    fun f fiber hfiber => hsim.exec_iff ha hfiber⟩
  · cases hsim.threads w with
    | own _ hown _ =>
        rcases hown with hown | hown
        · exact ⟨_, Or.inl hown⟩
        · exact ⟨_, Or.inr ⟨_, _, hown⟩⟩
    | body f k main fiber position _ _ hcurrent _ _ _ _ _ => exact absurd hcurrent (hnot f)
  · exact ha.single w w' f ((hsim.threads w).current_iff.mp hw) ((hsim.threads w').current_iff.mp hw')

/-- The context is not one of the thread's own code. -/
def Other (w : W) (ctx : Context W) : Prop := ∀ n, ctx ≠ .code (.own w) n

/-- The position is not one in the thread's own code. -/
def Apart (w : W) : Position W → Prop
  | .ctx ctx => Other w ctx
  | .yield c _ _ back => c ≠ .own w ∧ Other w back

omit [DecidableEq W] in
theorem other_of_code (h : c ≠ .own w) (n : Nat) : Other w (.code c n) := by
  rintro m heq
  cases heq
  exact h rfl

/-- Nobody has a context of the thread's own code, or only the thread itself has, which is about to
exit. -/
structure Gone (w : W) (s : State W) : Prop where
  running : ∀ v position, s.running v = some position → Apart w position
  fibers : ∀ f fiber, s.fibers f = some fiber → Other w fiber.ctx
  mains : ∀ v main, s.threadFiber v = some main →
    Other w main.ctx ∨ (v = w ∧ (s.running w = some (.ctx .leaving) ∨ s.running w = none))

omit [DecidableEq W] in
theorem Gone.main {v : W} {main : Fiber W} (h : Gone w s) (hmain : s.threadFiber v = some main)
    (hat : s.At v c n) : Other w main.ctx := by
  rcases h.mains v main hmain with hother | ⟨rfl, hleft | hleft⟩
  · exact hother
  · rcases hat with hat | ⟨this, back, hat⟩
    · cases hat.symm.trans hleft
    · cases hat.symm.trans hleft
  · rcases hat with hat | ⟨this, back, hat⟩
    · cases hat.symm.trans hleft
    · cases hat.symm.trans hleft

omit [DecidableEq W] in
/-- The code that goes on is not the lost one. -/
theorem Gone.code {v : W} (h : Gone w s) (hat : s.At v c n) : c ≠ .own w := by
  rcases hat with hat | ⟨this, back, hat⟩
  · rintro rfl
    exact h.running v _ hat n rfl
  · exact (h.running v _ hat).1

/-- A thread goes to a position that is not one in the lost code. -/
theorem Gone.goTo {v : W} {position : Position W} (h : Gone w s) (hposition : Apart w position)
    (hmain : ∀ main, s.threadFiber v = some main → Other w main.ctx) : Gone w (s.goTo v position) where
  running := by
    refine (Function.forall_update_iff s.running fun _ here =>
      ∀ position', here = some position' → Apart w position').mpr ⟨?_, fun v' _ => h.running v'⟩
    rintro _ ⟨⟩
    exact hposition
  fibers := h.fibers
  mains := by
    intro v' main hmain'
    by_cases hv : v' = v
    · exact Or.inl (hmain main (hv ▸ hmain'))
    · rcases h.mains v' main hmain' with hother | ⟨rfl, hleft⟩
      · exact Or.inl hother
      · refine Or.inr ⟨rfl, ?_⟩
        change Function.update s.running v (some position) v' = _ ∨ Function.update s.running v _ v' = _
        rwa [Function.update_of_ne hv]

omit [DecidableEq W] in
theorem Gone.setFiber {fiber : Option (Fiber W)} (h : Gone w s)
    (hfiber : ∀ x, fiber = some x → Other w x.ctx) : Gone w (s.setFiber f fiber) where
  running := h.running
  fibers := (Function.forall_update_iff s.fibers fun _ there =>
    ∀ x, there = some x → Other w x.ctx).mpr ⟨hfiber, fun f' _ => h.fibers f'⟩
  mains := h.mains

theorem Gone.setThreadFiber {v : W} {main : Fiber W} (h : Gone w s) (hmain : Other w main.ctx) :
    Gone w (s.setThreadFiber v main) where
  running := h.running
  fibers := h.fibers
  mains := by
    refine (Function.forall_update_iff s.threadFiber fun v' there => ∀ main', there = some main' →
      Other w main'.ctx ∨ (v' = w ∧ (s.running w = some (.ctx .leaving) ∨ s.running w = none))).mpr
        ⟨?_, fun v' _ => h.mains v'⟩
    rintro _ ⟨⟩
    exact Or.inl hmain

theorem Gone.setThis {v : W} {current : Current} (h : Gone w s) : Gone w (s.setThis v current) :=
  ⟨h.running, h.fibers, h.mains⟩

theorem Gone.yieldTo {v : W} {state : FiberState} (h : Gone w s) (hat : s.At v c n)
    (hstep : s.yieldTo v c (n + 1) state = some t) : Gone w t := by
  have hcode := h.code hat
  have hposition : ∀ this, Apart w (.yield c (n + 1) this (.code c (n + 1 + 1))) :=
    fun this => ⟨hcode, other_of_code hcode _⟩
  have hmain : ∀ main, s.threadFiber v = some main → Other w main.ctx := fun main hmain => h.main hmain hat
  rcases yieldTo_cases hstep with ⟨main, -, hthread, rfl⟩ | ⟨f, fiber, -, hfiber, rfl⟩
  · have hgone : Gone w (s.setThreadFiber v { main with state := state }) :=
      h.setThreadFiber (hmain main hthread)
    refine hgone.goTo (hposition _) fun main' hmain' => ?_
    cases (Function.update_self _ _ _).symm.trans hmain'
    exact hmain main hthread
  · refine (h.setFiber fun x hx => ?_).goTo (hposition _) hmain
    cases hx
    exact h.fibers f fiber hfiber

theorem Gone.yield {v : W} (h : Gone w s) (hat : s.running v = some (.yield c n this back))
    (hstep : s.yield v this back = some t) : Gone w t := by
  have hback : Other w back := (h.running v _ hat).2
  have hmain : ∀ main, s.threadFiber v = some main → Other w main.ctx :=
    fun main hmain => h.main hmain (Or.inr ⟨this, back, hat⟩)
  obtain ⟨main, hthread, ⟨-, rfl⟩ | ⟨f, fiber, -, hfiber, rfl⟩⟩ := yield_cases hstep
  · refine (h.setThis.setThreadFiber hback).goTo hback fun main' hmain' => ?_
    cases (Function.update_self _ _ _).symm.trans hmain'
    exact hback
  · refine (h.setThis.setFiber fun x hx => ?_).goTo (hmain main hthread) hmain
    cases hx
    exact hback

theorem Gone.perform {v : W} {act : Act} (h : Gone w s) (hat : s.running v = some (.ctx (.code c n)))
    (hstep : s.perform v c (n + 1) act = some t) : Gone w t := by
  have hat' : s.At v c n := Or.inl hat
  have hcode := h.code hat'
  have hhere : Other w (.code c (n + 1)) := other_of_code hcode _
  have hposition : Apart w (.ctx (.code c (n + 1))) := hhere
  have hmain : ∀ main, s.threadFiber v = some main → Other w main.ctx := fun main hmain => h.main hmain hat'
  have hnew : Other w (.mainFunc : Context W) := fun m heq => by cases heq
  have hset : ∀ {x : Fiber W} {f}, Other w x.ctx → Gone w (s.setFiber f (some x)) := fun hx =>
    h.setFiber fun y hy => Option.some.inj hy ▸ hx
  cases act with
  | work =>
      cases hstep
      exact h.goTo hposition hmain
  | enableFiber =>
      rw [State.perform] at hstep
      split at hstep
      · cases hstep
        refine (h.setThis.setThreadFiber hhere).goTo hposition fun main hmain' => ?_
        cases (Function.update_self _ _ _).symm.trans hmain'
        exact hhere
      · cases hstep
        exact h.goTo hposition hmain
  | create =>
      rw [State.perform] at hstep
      split at hstep
      · cases hstep
      · cases hstep
        have hgone := (hset (x := ⟨.init, .mainFunc, some 0⟩) (f := s.fiberId + 1) hnew).goTo
          hposition hmain
        exact ⟨hgone.running, hgone.fibers, hgone.mains⟩
  | reset f empty =>
      rw [State.perform] at hstep
      split at hstep
      · cases hstep
        have hgone := (hset (x := ⟨.init, .mainFunc, if empty then none else some (s.callbacks f)⟩)
          (f := f) hnew).goTo hposition hmain
        exact ⟨hgone.running, hgone.fibers, hgone.mains⟩
      · cases hstep
  | destroy f =>
      rw [State.perform] at hstep
      split at hstep
      · cases hstep
        exact (h.setFiber fun x hx => by cases hx).goTo hposition hmain
      · cases hstep
  | resume f =>
      obtain ⟨fiber, main, hfiber, -, -, rfl⟩ := resume_cases hstep
      have hctx := h.fibers f fiber hfiber
      refine ((h.setThis.setFiber fun x hx => ?_).setThreadFiber hhere).goTo hctx fun main' hmain' => ?_
      · cases hx
        exact hctx
      · cases (Function.update_self _ _ _).symm.trans hmain'
        exact hhere
  | yieldToHold | yieldToReady => exact h.yieldTo hat' hstep
  | finish =>
      cases c with
      | own v' => cases hstep
      | body f k =>
          obtain ⟨fiber, hfiber, rfl⟩ := finish_cases hstep
          have hleaving : Other w (.leaving : Context W) := fun m heq => by cases heq
          refine (h.setFiber fun x hx => ?_).goTo ⟨hcode, hleaving⟩ hmain
          cases hx
          exact h.fibers f fiber hfiber
  | switch | enter | exit => cases hstep

theorem Gone.step {l : W × Act} (h : Gone w s) (hstep : s.step l = some t) :
    Gone w t ∧ Interleaving.lane (.own w) t.log = Interleaving.lane (.own w) s.log := by
  obtain ⟨v, act⟩ := l
  have hlogged : ∀ c n, Gone w { s with log := s.log ++ [(c, n)] } :=
    fun c n => ⟨h.running, h.fibers, h.mains⟩
  have hlane : ∀ {c n}, s.At v c n → Frame { s with log := s.log ++ [(c, n)] } v t →
      Interleaving.lane (.own w) t.log = Interleaving.lane (.own w) s.log := by
    intro c n hat hframe
    rw [hframe.log, Interleaving.lane_append, Interleaving.lane_other (h.code hat), List.append_nil]
  rw [State.step] at hstep
  split at hstep
  · next c n hat => exact ⟨(hlogged c n).perform hat hstep, hlane (Or.inl hat) (perform_frame hstep)⟩
  · next c n this back hat =>
    split at hstep
    · exact ⟨(hlogged c n).yield hat hstep, hlane (Or.inr ⟨this, back, hat⟩) (yield_frame hstep)⟩
    · cases hstep
  · next hat =>
    split at hstep
    · rw [State.mainFunc] at hstep
      split at hstep
      · split at hstep
        · next f _ k _ =>
          cases hstep
          refine ⟨h.goTo (fun m heq => by cases heq) fun main hmain => ?_, rfl⟩
          rcases h.mains v main hmain with hother | ⟨rfl, hleft | hleft⟩
          · exact hother
          · cases hat.symm.trans hleft
          · cases hat.symm.trans hleft
        · cases hstep
      · cases hstep
    · cases hstep
  · split at hstep
    · cases hstep
      refine ⟨⟨(Function.forall_update_iff s.running fun _ here =>
        ∀ position, here = some position → Apart w position).mpr
          ⟨fun _ hnone => absurd hnone.symm (Option.some_ne_none _), fun v' _ => h.running v'⟩, h.fibers,
            fun v' main hmain => ?_⟩, rfl⟩
      · refine (h.mains v' main hmain).imp_right fun hleft => ⟨hleft.1, ?_⟩
        change Function.update s.running v none w = _ ∨ Function.update s.running v none w = _
        by_cases hw : w = v
        · rw [hw, Function.update_self]
          exact Or.inr rfl
        · rw [Function.update_of_ne hw]
          exact hleft.2
    · cases hstep
  · cases hstep

omit [DecidableEq W] in
theorem Fits.other {fiber : Fiber W} (h : Fits a f (some fiber) status) (w : W) : Other w fiber.ctx := by
  intro m heq
  cases h with
  | new func => cases heq
  | suspended k func state hstate => cases heq
  | running k fiber hctx =>
      rcases hctx with hctx | ⟨n, hctx⟩
      · cases hctx.symm.trans heq
      · cases hctx.symm.trans heq
  | ended => cases heq

omit [DecidableEq W] in
theorem Within.apart {position : Position W} {fiber : Fiber W} (h : Within f k n position fiber) (w : W) :
    Apart w position := by
  have hcode : Code.body f k ≠ .own w := fun heq => by cases heq
  cases h with
  | mainFunc ctx hn => exact fun m heq => by cases heq
  | code ctx func => exact other_of_code hcode _
  | yield ctx func state hstate => exact ⟨hcode, other_of_code hcode _⟩
  | finish ctx => exact ⟨hcode, fun m heq => by cases heq⟩

omit [DecidableEq W] in
theorem Runs.other (h : Runs s a w') (hw : w' ≠ w) :
    (∀ position, s.running w' = some position → Apart w position) ∧
      ∀ main, s.threadFiber w' = some main → Other w main.ctx := by
  have hcode : Code.own w' ≠ .own w := fun heq => hw (by cases heq; rfl)
  have hown : ∀ n, Other w (.code (.own w') n : Context W) := other_of_code hcode
  refine ⟨fun position hrunning => ?_, fun main hmain => ?_⟩
  · cases h with
    | own _ hat _ =>
        rcases hat with hat | hat
        · cases hat.symm.trans hrunning
          exact hown _
        · cases hat.symm.trans hrunning
          exact ⟨hcode, hown _⟩
    | body f k main fiber position' _ _ _ _ _ _ hat hposition =>
        cases hat.symm.trans hrunning
        exact hposition.apart w
  · cases h with
    | own _ _ hcurrent =>
        rcases hcurrent with ⟨-, hnone⟩ | ⟨-, main', n, hmain', hctx⟩
        · cases hnone.symm.trans hmain
        · cases hmain'.symm.trans hmain
          exact hctx ▸ hown n
    | body f k main' fiber position _ _ _ hmain' hctx _ _ _ =>
        cases hmain'.symm.trans hmain
        exact hctx ▸ hown _

/-- A fiber that has ended and switched out is at the end of `MainFunc`. -/
theorem Simulates.leaving_of_ended {fiber : Fiber W} (h : Simulates s a) (ha : Coroutine.Inv a)
    (hswitched : ∀ w, s.current w ≠ some (.fiber f)) (hfiber : s.fibers f = some fiber)
    (hended : fiber.state.isTerminate = true) : fiber.ctx = .leaving := by
  have hout := h.not_running ha hswitched
  have hfit := h.fibers f
  rw [hfiber] at hfit
  generalize a.status f = status at hfit hout
  cases hfit with
  | new func => cases hended
  | suspended k func state hstate =>
      rcases hstate with rfl | rfl
      · cases hended
      · cases hended
  | running k fiber hctx => exact absurd rfl (hout k)
  | ended => rfl

/-- What becomes of the thread's context when `Resume` is called so. -/
theorem gone_of_improper (h : Simulates s a) (ha : Coroutine.Inv a) (himproper : s.Improper w f)
    (hstep : s.step (w, .resume f) = some t) : Gone w t := by
  have hfits : ∀ f fiber, s.fibers f = some fiber → Other w fiber.ctx := by
    intro f fiber hfiber
    have hfit := h.fibers f
    rw [hfiber] at hfit
    exact hfit.other w
  rw [State.step] at hstep
  split at hstep
  · next c n hat =>
    obtain ⟨fiber, main, hfiber, -, -, rfl⟩ := resume_cases hstep
    change s.fibers f = some fiber at hfiber
    have hctx := hfits f fiber hfiber
    refine ⟨?_, ?_, fun v main' hmain => ?_⟩
    · refine (Function.forall_update_iff s.running fun _ here =>
        ∀ position, here = some position → Apart w position).mpr
          ⟨?_, fun v hv => ((h.threads v).other hv).1⟩
      rintro _ ⟨⟩
      exact hctx
    · refine (Function.forall_update_iff s.fibers fun _ there =>
        ∀ x, there = some x → Other w x.ctx).mpr ⟨?_, fun f' _ => hfits f'⟩
      rintro _ ⟨⟩
      exact hctx
    · change Function.update s.threadFiber w (some _) v = _ at hmain
      by_cases hv : v = w
      · subst hv
        rw [Function.update_self] at hmain
        cases hmain
        rcases himproper with ⟨g, hg⟩ | ⟨hany, hswitched⟩
        · -- the thread's context is overwritten by one of the fiber that resumes
          refine Or.inl (other_of_code ?_ _)
          rintro rfl
          have hwithin := (h.threads v).current_iff.mp hg
          have hactive := ((h.threads v).active (Or.inl hat)).1
          rcases Coroutine.active_cases hactive with ⟨hnone, -⟩ | ⟨_, _, _, _, heq⟩
          · cases hnone.symm.trans hwithin
          · cases heq
        · -- the thread goes to the end of `MainFunc`
          refine Or.inr ⟨rfl, Or.inl ?_⟩
          have hended : fiber.state.isTerminate = true := by
            rw [hfiber] at hany
            exact hany
          have hleft := h.leaving_of_ended ha hswitched hfiber hended
          change Function.update s.running v (some (.ctx fiber.ctx)) v = _
          rw [Function.update_self, hleft]
      · rw [Function.update_of_ne hv] at hmain
        exact Or.inl (((h.threads v).other hv).2 main' hmain)
  · split at hstep
    · next heq => cases heq
    · cases hstep
  · split at hstep
    · next heq => cases heq
    · cases hstep
  · split at hstep
    · next heq => cases heq
    · cases hstep
  · cases hstep

/-- **The condition is needed.** Where a fiber resumes another one, or a fiber is resumed that has ended
and switched out, the thread's own code never goes on, whatever is done afterwards. -/
theorem lost_of_improper (h : Reached s) (himproper : s.Improper w f)
    (hstep : s.step (w, .resume f) = some t) : t.Lost w := by
  obtain ⟨a, ha, hsim⟩ := represented h
  have hgone := gone_of_improper hsim ha himproper hstep
  intro u hu
  have hboth : Gone w u ∧ Interleaving.lane (.own w) u.log = Interleaving.lane (.own w) t.log := by
    apply Transition.Reachable.invariant _ _ hu
    · rintro _ rfl
      exact ⟨hgone, rfl⟩
    · rintro u l v ⟨hu, hlane⟩ hstep
      obtain ⟨hv, hsame⟩ := hu.step hstep
      exact ⟨hv, hsame.trans hlane⟩
  exact hboth.2

end Results

section Examples

/-- Two threads. -/
def started : State (Fin 2) :=
  { fibers := fun _ => none
    fiberId := 0
    callbacks := fun _ => 0
    threadFiber := fun _ => none
    current := fun _ => none
    running := fun w => some (.ctx (.code (.own w) 0))
    log := [] }

theorem new_started : New started :=
  ⟨fun _ => rfl, rfl, fun _ => rfl, fun _ => rfl, fun _ => rfl, fun _ => rfl, rfl⟩

def orderly (s : State (Fin 2)) (l : Fin 2 × Act) : Bool :=
  (l.2.target.all fun f => ∀ w, s.current w ≠ some (.fiber f)) &&
    match l.2 with
    | .resume f =>
        (match s.running l.1 with
          | some (.ctx (.code (.own _) _)) => true
          | _ => false) &&
        (s.fibers f).all fun fiber => !fiber.state.isTerminate && fiber.func.isSome
    | _ => true

theorem proper_of_orderly {s : State (Fin 2)} {l : Fin 2 × Act} (h : orderly s l = true) : s.Proper l := by
  obtain ⟨w, act⟩ := l
  obtain ⟨hout, hcall⟩ := Bool.and_eq_true_iff.mp h
  refine ⟨fun f htarget => ?_, ?_, ?_⟩
  · have hall := Option.all_eq_true _ _ |>.mp hout f htarget
    exact of_decide_eq_true hall
  · rintro f rfl
    obtain ⟨hat, -⟩ := Bool.and_eq_true_iff.mp hcall
    dsimp only at hat
    split at hat
    · next w' n hrunning => exact ⟨w', n, hrunning⟩
    · cases hat
  · rintro f fiber rfl hfiber
    obtain ⟨-, hall⟩ := Bool.and_eq_true_iff.mp hcall
    obtain ⟨hended, hfunc⟩ := Bool.and_eq_true_iff.mp (Option.all_eq_true _ _ |>.mp hall fiber hfiber)
    refine ⟨by simpa using hended, fun _ hnone => ?_⟩
    rw [hnone] at hfunc
    cases hfunc

theorem reached_labels {labels : List (Fin 2 × Act)} {look : State (Fin 2) → Bool}
    (h : (labels.foldlM (Transition.guarded (fun s l => orderly s l = true) State.step) started).map look
      = some true) : ∃ s, Reached s ∧ look s = true := by
  obtain ⟨s, hrun, hlook⟩ := Option.map_eq_some_iff.mp h
  refine ⟨s, Transition.Reachable.of_run (fun s l t hstep => ?_) (.start new_started) hrun, hlook⟩
  obtain ⟨horderly, hstep⟩ := Transition.guarded_step s l t hstep
  exact ⟨proper_of_orderly horderly, hstep⟩

/-- A fiber yields on the first thread and goes on with the second. -/
def moved : List (Fin 2 × Act) :=
  [(0, .enableFiber), (1, .enableFiber), (0, .create), (0, .resume 1), (0, .enter), (0, .work),
    (0, .yieldToHold), (0, .switch), (1, .resume 1), (0, .work), (1, .work)]

theorem simulates_of_reached_moved : ∃ s : State (Fin 2), s.current 1 = some (.fiber 1) ∧
    ∃ a, Coroutine.Reached a ∧ Simulates s a := by
  obtain ⟨s, hs, hlook⟩ := @reached_labels moved (fun s => s.current 1 = some (.fiber 1)) (by decide +kernel)
  exact ⟨s, of_decide_eq_true hlook, simulates_of_reached hs⟩

theorem in_order_moved : ∃ s : State (Fin 2),
    (Interleaving.lane (.body 1 0) s.log).length = 4 ∧ Interleaving.lane (.body 1 0) s.log
      = List.range (Interleaving.lane (.body 1 0) s.log).length := by
  obtain ⟨s, hs, hlook⟩ := @reached_labels moved
    (fun s => (Interleaving.lane (.body 1 0) s.log).length = 4) (by decide +kernel)
  exact ⟨s, of_decide_eq_true hlook, in_order hs _⟩

/-- A fiber is resumed before it has switched out, and begins again. -/
example : (List.foldlM State.step started
    [(0, .enableFiber), (1, .enableFiber), (0, .create), (0, .resume 1), (0, .enter), (0, .work),
      (0, .yieldToHold), (1, .resume 1), (1, .enter), (1, .work)]).map
    (fun s => Interleaving.lane (.body 1 0) s.log) = some [0, 1, 0] := by decide +kernel

theorem sound_of_reached_moved : ∃ s : State (Fin 2), s.current 1 = some (.fiber 1) ∧ s.Sound := by
  obtain ⟨s, hs, hlook⟩ := @reached_labels moved (fun s => s.current 1 = some (.fiber 1)) (by decide +kernel)
  exact ⟨s, of_decide_eq_true hlook, sound_of_reached hs⟩

/-- The fiber resumes another one. -/
theorem lost_of_improper_nested : ∃ t : State (Fin 2), t.Lost 1 := by
  let nested (s : State (Fin 2)) : Bool :=
    s.current 1 = some (.fiber 1) ∧ (s.step (1, .resume 2)).isSome
  obtain ⟨s, hs, hlook⟩ := @reached_labels (moved ++ [(1, .create)]) nested (by decide +kernel)
  obtain ⟨hcurrent, hsome⟩ := of_decide_eq_true hlook
  obtain ⟨t, hstep⟩ := Option.isSome_iff_exists.mp hsome
  exact ⟨t, lost_of_improper hs (Or.inl ⟨1, hcurrent⟩) hstep⟩

end Examples

end AsyncRPC.Fiber
