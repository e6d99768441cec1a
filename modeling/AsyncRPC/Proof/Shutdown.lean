import AsyncRPC.Proof.Scheduler

/-!
# What `stop_` leaves behind

A worker that has seen `stop_` unset looks for a task once more, and no worker looks after that. So
once `stop_` is set, a task that nobody is still to look for stays in `tasks_`.
-/

namespace AsyncRPC.Scheduler

open Transition

variable {F W : Type}

/-- The task that a worker has taken and not begun. -/
def Pc.ticket : Pc F W → Option Nat
  | .selected task => task.map Task.ticket
  | .resetting _ k | .creating k => some k
  | .engaged stage _ _ k => if stage.before then some k else none
  | .testing | .selecting | .recycling _ | .idling | .waiting | .left => none

/-- The loop over `tasks_` leaves a task there or stops at it. -/
theorem mem_eraseP_or_find? {α : Type} (p : α → Bool) {a : α} {l : List α} (h : a ∈ l) :
    a ∈ l.eraseP p ∨ l.find? p = some a := by
  induction l with
  | nil => cases h
  | cons b l ih =>
      by_cases hp : p b = true
      · rw [List.eraseP_cons_of_pos hp, List.find?_cons_of_pos hp]
        rcases List.mem_cons.mp h with rfl | hmem
        · exact Or.inr rfl
        · exact Or.inl hmem
      · rw [List.eraseP_cons_of_neg hp, List.find?_cons_of_neg hp]
        rcases List.mem_cons.mp h with rfl | hmem
        · exact Or.inl List.mem_cons_self
        · exact (ih hmem).imp_left (List.mem_cons_of_mem b)

namespace State

/-- Somebody is still to look for what is in `tasks_`. -/
def Watched (s : State F W) : Prop :=
  s.stop = true → s.tasks = [] ∨ ∃ w, s.pc w = .selecting

structure Inv (s : State F W) : Prop where
  left : ∀ w, s.pc w = .left → s.stop = true
  ended : ∀ w, s.idleEnded w = true → s.stop = true
  tickets : ∀ k, k < s.next → (∃ task ∈ s.tasks, task.ticket = k) ∨
    (∃ w, (s.pc w).ticket = some k) ∨ s.served k = true

variable {s t : State F W} {w : W} {f : F} {pc : Pc F W}

theorem inv_of_new (h : New s) : s.Inv where
  left w hw := by
    rw [h.pc w] at hw
    cases hw
  ended w hw := by
    rw [h.idleEnded w] at hw
    cases hw
  tickets k hk := by
    rw [h.next] at hk
    exact absurd hk (Nat.not_lt_zero k)

/-- All workers have left, and nothing is in `tasks_`. -/
theorem Inv.emptied (h : s.Inv) (hleft : ∀ w, s.pc w = .left) (htasks : s.tasks = []) : s.Emptied := by
  refine ⟨htasks, fun k hk => ?_⟩
  rcases h.tickets k hk with ⟨task, htask, -⟩ | ⟨w, hw⟩ | hserved
  · rw [htasks] at htask
    cases htask
  · rw [hleft w] at hw
    cases hw
  · exact hserved

section Steps

variable [DecidableEq F] [DecidableEq W]

omit [DecidableEq F] in
/-- A worker moves on, and keeps the task it has or has begun it. -/
theorem Inv.move (h : s.Inv) (hpc : t.pc = Function.update s.pc w pc)
    (hstop : s.stop = true → t.stop = true) (hended : ∀ w, t.idleEnded w = true → t.stop = true)
    (hleft : pc = .left → t.stop = true) (hnext : t.next = s.next)
    (hserved : ∀ k, s.served k = true → t.served k = true)
    (htasks : ∀ task ∈ s.tasks, task ∈ t.tasks ∨ pc.ticket = some task.ticket)
    (hticket : ∀ k, (s.pc w).ticket = some k → pc.ticket = some k ∨ t.served k = true) : t.Inv := by
  have hself : t.pc w = pc := by
    rw [hpc, Function.update_self]
  have hothers : ∀ w', w' ≠ w → t.pc w' = s.pc w' := by
    intro w' hw'
    rw [hpc, Function.update_of_ne hw']
  refine
    { left := fun w' hw' => ?_
      ended := hended
      tickets := fun k hk => ?_ }
  · by_cases hww : w' = w
    · subst hww
      exact hleft (hself.symm.trans hw')
    · exact hstop (h.left w' ((hothers w' hww).symm.trans hw'))
  · rcases h.tickets k (hnext ▸ hk) with ⟨task, htask, rfl⟩ | ⟨w', hw'⟩ | hdone
    · rcases htasks task htask with hin | htaken
      · exact Or.inl ⟨task, hin, rfl⟩
      · exact Or.inr (Or.inl ⟨w, hself ▸ htaken⟩)
    · by_cases hww : w' = w
      · subst hww
        rcases hticket k hw' with hkept | hdone
        · exact Or.inr (Or.inl ⟨w', hself ▸ hkept⟩)
        · exact Or.inr (Or.inr hdone)
      · exact Or.inr (Or.inl ⟨w', (hothers w' hww).symm ▸ hw'⟩)
    · exact Or.inr (Or.inr (hserved k hdone))

omit [DecidableEq F] [DecidableEq W] in
theorem Inv.push (h : s.Inv) (work : Work F) (thread : Option W) : (s.push work thread).Inv where
  left := h.left
  ended := h.ended
  tickets k hk := by
    by_cases hnew : k = s.next
    · subst hnew
      exact Or.inl ⟨_, List.mem_append_right _ (List.mem_singleton_self _), rfl⟩
    · have hlt : k < s.next := Nat.lt_of_le_of_ne (Nat.le_of_lt_succ hk) hnew
      rcases h.tickets k hlt with ⟨task, htask, rfl⟩ | hw | hdone
      · exact Or.inl ⟨task, List.mem_append_left _ htask, rfl⟩
      · exact Or.inr (Or.inl hw)
      · exact Or.inr (Or.inr ((Function.update_of_ne hnew _ _).trans hdone))

omit [DecidableEq F] in
theorem Inv.goto (h : s.Inv) (hpc : t.pc = Function.update s.pc w pc) (hstop : t.stop = s.stop)
    (hended : t.idleEnded = s.idleEnded) (hleft : pc ≠ .left) (hnext : t.next = s.next)
    (hserved : t.served = s.served) (htasks : t.tasks = s.tasks)
    (hticket : ∀ k, (s.pc w).ticket = some k → pc.ticket = some k) : t.Inv := by
  refine h.move hpc (fun hs => hstop.trans hs) (fun w hw => hstop.trans (h.ended w (hended ▸ hw)))
    (fun hl => absurd hl hleft) hnext (fun k hk => by rwa [hserved])
    (fun task htask => Or.inl (htasks ▸ htask)) fun k hk => Or.inl (hticket k hk)

omit [DecidableEq F] [DecidableEq W] in
theorem served_serve (k : Nat) : (s.serve k).served k = true := Function.update_self _ _ _

omit [DecidableEq F] [DecidableEq W] in
theorem served_serve_of_served {j k : Nat} (h : s.served j = true) : (s.serve k).served j = true := by
  by_cases hjk : j = k
  · rw [hjk]
    exact served_serve k
  · exact (Function.update_of_ne hjk _ _).trans h

omit [DecidableEq F] [DecidableEq W] in
theorem Inv.serve (h : s.Inv) (k : Nat) : (s.serve k).Inv where
  left := h.left
  ended := h.ended
  tickets j hj := by
    rcases h.tickets j hj with htask | hw | hserved
    · exact Or.inl htask
    · exact Or.inr (Or.inl hw)
    · exact Or.inr (Or.inr (served_serve_of_served hserved))

omit [DecidableEq F] in
theorem Inv.beIdle (h : s.Inv) (hserved : ∀ k, (s.pc w).ticket = some k → s.served k = true) :
    (s.beIdle w).Inv := by
  unfold State.beIdle
  split
  · next hended =>
    exact h.move rfl id h.ended (fun _ => h.ended w hended) rfl (fun _ => id) (fun _ => Or.inl)
      fun k hk => Or.inr (hserved k hk)
  · exact h.move rfl id h.ended (fun hleft => by cases hleft) rfl (fun _ => id) (fun _ => Or.inl)
      fun k hk => Or.inr (hserved k hk)

omit [DecidableEq F] in
theorem Inv.select (h : s.Inv) (hpc : s.pc w = .selecting) :
    Inv { s.goto w (.selected (s.tasks.find? (s.eligible w))) with
      tasks := s.tasks.eraseP (s.eligible w) } := by
  refine h.move rfl id h.ended (fun hleft => by cases hleft) rfl (fun _ => id) (fun task htask => ?_)
    fun k hk => ?_
  · rcases mem_eraseP_or_find? (s.eligible w) htask with hleft | hfound
    · exact Or.inl hleft
    · exact Or.inr (by rw [hfound]; rfl)
  · rw [hpc] at hk
    cases hk

omit [DecidableEq F] in
theorem Inv.dispatch (h : s.Inv) {task : Option (Task F W)} (hpc : s.pc w = .selected task) :
    (s.dispatch w task).Inv := by
  have hticket : (s.pc w).ticket = task.map Task.ticket := by
    rw [hpc]
    rfl
  unfold State.dispatch
  split
  · exact h.beIdle fun k hk => by cases hticket.symm.trans hk
  · next task =>
    split
    · next f hwork =>
      split
      · refine (h.serve task.ticket).beIdle fun k hk => ?_
        cases hticket.symm.trans hk
        exact served_serve _
      · exact h.goto rfl rfl rfl (by simp) rfl rfl rfl fun k hk => hticket.symm.trans hk
    · split
      · exact h.goto rfl rfl rfl (by simp) rfl rfl rfl fun k hk => hticket.symm.trans hk
      · exact h.goto rfl rfl rfl (by simp) rfl rfl rfl fun k hk => hticket.symm.trans hk

omit [DecidableEq F] in
theorem Inv.check (h : s.Inv) {origin : Origin} {k : Nat}
    (hpc : s.pc w = .engaged .checking f origin k) : (s.check w f origin k).Inv := by
  have hnone : ∀ j, (s.pc w).ticket ≠ some j := by
    rw [hpc]
    exact fun j hj => by cases hj
  unfold State.check
  split
  · exact h.goto rfl rfl rfl (by simp) rfl rfl rfl fun j hj => absurd hj (hnone j)
  · cases origin with
    | fiber => exact h.goto rfl rfl rfl (by simp) rfl rfl rfl fun j hj => absurd hj (hnone j)
    | func =>
        dsimp only
        split
        · exact h.goto rfl rfl rfl (by simp) rfl rfl rfl fun j hj => absurd hj (hnone j)
        · exact h.goto rfl rfl rfl (by simp) rfl rfl rfl fun j hj => absurd hj (hnone j)

omit [DecidableEq F] in
/-- A worker goes on with its fiber; the ticket is done with once the fiber is switched in. -/
theorem Inv.onward (h : s.Inv) {stage stage' : Stage} {origin : Origin} {k : Nat}
    (hpc : s.pc w = .engaged stage f origin k)
    (ht : t.pc = Function.update s.pc w (.engaged stage' f origin k)) (hstop : t.stop = s.stop)
    (hended : t.idleEnded = s.idleEnded) (hnext : t.next = s.next) (hserved : t.served = s.served)
    (htasks : t.tasks = s.tasks) (hbefore : stage.before = true → stage'.before = true) : t.Inv := by
  refine h.goto ht hstop hended (by simp) hnext hserved htasks fun j hj => ?_
  rw [hpc] at hj
  obtain ⟨hin, hkj⟩ := Option.ite_none_right_eq_some.mp hj
  exact (if_pos (hbefore hin)).trans hkj

theorem inv_step (h : s.Inv) {l : Label F W} (hstep : s.step l = some t) : t.Inv := by
  cases stepped_of_step hstep with
  | create => exact ⟨h.left, h.ended, h.tickets⟩
  | submit => exact h.push _ _
  | stop => exact ⟨fun _ _ => rfl, fun _ _ => rfl, h.tickets⟩
  | leave hpc hstop =>
      exact h.move rfl id h.ended (fun _ => hstop) rfl (fun _ => id) (fun _ => Or.inl)
        fun k hk => by cases (congrArg Pc.ticket hpc).symm.trans hk
  | look hpc =>
      exact h.goto rfl rfl rfl (by simp) rfl rfl rfl
        fun k hk => by cases (congrArg Pc.ticket hpc).symm.trans hk
  | select hpc => exact h.select hpc
  | dispatch hpc => exact h.dispatch hpc
  | reset hpc =>
      exact h.goto rfl rfl rfl (by simp) rfl rfl rfl
        fun j hj => (congrArg Pc.ticket hpc).symm.trans hj
  | spawn hpc =>
      exact h.goto rfl rfl rfl (by simp) rfl rfl rfl
        fun j hj => (congrArg Pc.ticket hpc).symm.trans hj
  | count hpc => exact h.onward hpc rfl rfl rfl rfl rfl rfl fun _ => rfl
  | assert hpc => exact h.onward hpc rfl rfl rfl rfl rfl rfl fun _ => rfl
  | exec hpc => exact h.onward hpc rfl rfl rfl rfl rfl rfl fun _ => rfl
  | @switchIn w f origin k hpc =>
      refine (h.serve k).move rfl id h.ended (fun hleft => by cases hleft) rfl (fun _ => id)
        (fun _ => Or.inl) fun j hj => Or.inr ?_
      cases (congrArg Pc.ticket hpc).symm.trans hj
      exact served_serve _
  | yield hpc => exact h.onward hpc rfl rfl rfl rfl rfl rfl id
  | switchOut hpc => exact h.onward hpc rfl rfl rfl rfl rfl rfl id
  | uncount hpc => exact h.onward hpc rfl rfl rfl rfl rfl rfl id
  | check hpc => exact h.check hpc
  | resubmitFiber hpc =>
      exact (h.push _ none).goto rfl rfl rfl (by simp) rfl rfl rfl
        fun j hj => by cases (congrArg Pc.ticket hpc).symm.trans hj
  | resubmitFunc hpc =>
      exact (h.push _ none).goto rfl rfl rfl (by simp) rfl rfl rfl
        fun j hj => by cases (congrArg Pc.ticket hpc).symm.trans hj
  | recycle hpc =>
      exact h.goto rfl rfl rfl (by simp) rfl rfl rfl
        fun k hk => by cases (congrArg Pc.ticket hpc).symm.trans hk
  | done hpc hstopping =>
      have hstop : s.stop = true := by
        simp only [stopping, Bool.and_eq_true] at hstopping
        exact hstopping.1.1
      exact h.move rfl id (fun _ _ => hstop) (fun _ => hstop) rfl (fun _ => id) (fun _ => Or.inl)
        fun k hk => by cases (congrArg Pc.ticket hpc).symm.trans hk
  | rest hpc =>
      exact h.goto rfl rfl rfl (by simp) rfl rfl rfl
        fun k hk => by cases (congrArg Pc.ticket hpc).symm.trans hk
  | wait hpc =>
      exact h.goto rfl rfl rfl (by simp) rfl rfl rfl
        fun k hk => by cases (congrArg Pc.ticket hpc).symm.trans hk

/-- What a step does to `stop_`, to `tasks_` and to those who are to look there. -/
inductive Effect (s : State F W) : Label F W → State F W → Prop
  | quiet {l : Label F W} {t : State F W} (hkeeps : s.Keeps l) (hstop : t.stop = s.stop)
      (htasks : t.tasks = s.tasks) (hselecting : ∀ w, t.pc w = .selecting ↔ s.pc w = .selecting) :
      Effect s l t
  | stop : Effect s .stop { s with stop := true }
  | push {l : Label F W} {t : State F W}
      (hkeeps : s.Keeps l ↔ (s.stop = true → ∃ w, s.pc w = .selecting)) (hstop : t.stop = s.stop)
      (htasks : t.tasks ≠ []) (hselecting : ∀ w, t.pc w = .selecting ↔ s.pc w = .selecting) :
      Effect s l t
  | test {l : Label F W} {t : State F W} (hkeeps : s.Keeps l) (hrunning : s.stop = false)
      (hstop : t.stop = false) : Effect s l t
  | select {w : W} {t : State F W} (hpc : s.pc w = .selecting) (hstop : t.stop = s.stop)
      (htasks : t.tasks = s.tasks.eraseP (s.eligible w))
      (hselecting : ∀ w', t.pc w' = .selecting ↔ w' ≠ w ∧ s.pc w' = .selecting) :
      Effect s (.select w) t

omit [DecidableEq F] in
theorem selecting_iff (hpc : t.pc = Function.update s.pc w pc) (hold : s.pc w ≠ .selecting)
    (hnew : pc ≠ .selecting) (w' : W) : t.pc w' = .selecting ↔ s.pc w' = .selecting := by
  by_cases hw : w' = w
  · subst hw
    rw [hpc, Function.update_self]
    exact iff_of_false hnew hold
  · rw [hpc, Function.update_of_ne hw]

omit [DecidableEq F] in
theorem selecting_goto_testing (hpc : t.pc = Function.update s.pc w .testing)
    (hold : s.pc w ≠ .selecting) (w' : W) : t.pc w' = .selecting ↔ s.pc w' = .selecting :=
  selecting_iff hpc hold (by simp) w'

omit [DecidableEq F] in
theorem Effect.goto {l : Label F W} (hkeeps : s.Keeps l) (hstop : t.stop = s.stop)
    (htasks : t.tasks = s.tasks) (hpc : t.pc = Function.update s.pc w pc)
    (hold : s.pc w ≠ .selecting) (hnew : pc ≠ .selecting) : Effect s l t :=
  .quiet hkeeps hstop htasks (selecting_iff hpc hold hnew)

omit [DecidableEq F] in
theorem effect_beIdle {l : Label F W} (hkeeps : s.Keeps l) (hold : s.pc w ≠ .selecting) :
    Effect s l (s.beIdle w) := by
  unfold State.beIdle
  split
  · exact .goto hkeeps rfl rfl rfl hold (by simp)
  · exact .goto hkeeps rfl rfl rfl hold (by simp)

omit [DecidableEq F] in
theorem effect_dispatch {l : Label F W} (hkeeps : s.Keeps l) (hold : s.pc w ≠ .selecting)
    (task : Option (Task F W)) : Effect s l (s.dispatch w task) := by
  unfold State.dispatch
  split
  · exact effect_beIdle hkeeps hold
  · split
    · split
      · unfold State.beIdle
        split
        · exact .goto hkeeps rfl rfl rfl hold (by simp)
        · exact .goto hkeeps rfl rfl rfl hold (by simp)
      · exact .goto hkeeps rfl rfl rfl hold (by simp)
    · split
      · exact .goto hkeeps rfl rfl rfl hold (by simp)
      · exact .goto hkeeps rfl rfl rfl hold (by simp)

omit [DecidableEq F] in
theorem effect_check {l : Label F W} (hkeeps : s.Keeps l) (hold : s.pc w ≠ .selecting)
    (origin : Origin) (k : Nat) : Effect s l (s.check w f origin k) := by
  unfold State.check
  split
  · exact .goto hkeeps rfl rfl rfl hold (by simp)
  · cases origin with
    | fiber => exact .goto hkeeps rfl rfl rfl hold (by simp)
    | func =>
        dsimp only
        split
        · exact .goto hkeeps rfl rfl rfl hold (by simp)
        · exact .goto hkeeps rfl rfl rfl hold (by simp)

theorem effect_of_step {l : Label F W} (hstep : s.step l = some t) : Effect s l t := by
  have hpushed : ∀ (work : Work F) (thread : Option W), (s.push work thread).tasks ≠ [] :=
    fun _ _ => List.append_ne_nil_of_right_ne_nil _ (List.cons_ne_nil _ _)
  cases stepped_of_step hstep with
  | create => exact .quiet trivial rfl rfl fun _ => Iff.rfl
  | submit => exact .push Iff.rfl rfl (hpushed _ _) fun _ => Iff.rfl
  | stop => exact .stop
  | leave hpc => exact .goto trivial rfl rfl rfl (by rw [hpc]; simp) (by simp)
  | look hpc hrunning => exact .test trivial hrunning hrunning
  | @select w hpc =>
      refine .select hpc rfl rfl fun w' => ?_
      by_cases hw : w' = w
      · subst hw
        change Function.update s.pc w' _ w' = _ ↔ _
        rw [Function.update_self]
        simp
      · change Function.update s.pc w _ w' = _ ↔ _
        rw [Function.update_of_ne hw]
        exact (and_iff_right hw).symm
  | dispatch hpc => exact effect_dispatch (by trivial) (by rw [hpc]; simp) _
  | check hpc => exact effect_check (by trivial) (by rw [hpc]; simp) _ _
  | resubmitFiber hpc =>
      exact .push Iff.rfl rfl (hpushed _ _) (selecting_goto_testing rfl (by rw [hpc]; simp))
  | resubmitFunc hpc =>
      exact .push Iff.rfl rfl (hpushed _ _) (selecting_goto_testing rfl (by rw [hpc]; simp))
  | reset hpc | spawn hpc | count hpc | assert hpc | exec hpc | switchIn hpc | yield hpc
  | switchOut hpc | uncount hpc | recycle hpc | done hpc | rest hpc | wait hpc =>
      exact .goto trivial rfl rfl rfl (by rw [hpc]; simp) (by simp)

omit [DecidableEq F] in
/-- A step keeps somebody there to look exactly when it meets its condition. -/
theorem Effect.watched_iff {l : Label F W} (h : Effect s l t) (hwatched : s.Watched) :
    t.Watched ↔ s.Keeps l := by
  cases h with
  | quiet hkeeps hstop htasks hselecting =>
      refine iff_of_true (fun ht => ?_) hkeeps
      rcases hwatched (hstop ▸ ht) with hempty | ⟨w, hw⟩
      · exact Or.inl (htasks.trans hempty)
      · exact Or.inr ⟨w, (hselecting w).mpr hw⟩
  | stop => exact ⟨fun h => h rfl, fun h _ => h⟩
  | push hkeeps hstop htasks hselecting =>
      rw [hkeeps, Watched, hstop, or_iff_right htasks]
      exact imp_congr_right fun _ => exists_congr hselecting
  | test hkeeps hrunning hstop =>
      refine iff_of_true (fun ht => ?_) hkeeps
      rw [hstop] at ht
      cases ht
  | select hpc hstop htasks hselecting =>
      rw [Watched, hstop, htasks, Keeps]
      exact imp_congr_right fun _ => or_congr_right (exists_congr hselecting)

omit [DecidableEq F] in
/-- What nobody is to look for is never looked for again. -/
theorem Effect.not_watched {l : Label F W} (h : Effect s l t) (hnot : ¬ s.Watched) :
    ¬ t.Watched := by
  rw [Watched, Classical.not_imp, not_or] at hnot
  obtain ⟨hstopped, htask, hnobody⟩ := hnot
  rw [Watched, Classical.not_imp, not_or]
  cases h with
  | quiet hkeeps hstop htasks hselecting =>
      refine ⟨hstop.trans hstopped, htasks ▸ htask, ?_⟩
      rintro ⟨w, hw⟩
      exact hnobody ⟨w, (hselecting w).mp hw⟩
  | stop => exact ⟨rfl, htask, hnobody⟩
  | push hkeeps hstop htasks hselecting =>
      refine ⟨hstop.trans hstopped, htasks, ?_⟩
      rintro ⟨w, hw⟩
      exact hnobody ⟨w, (hselecting w).mp hw⟩
  | test hkeeps hrunning hstop =>
      rw [hrunning] at hstopped
      cases hstopped
  | select hpc => exact absurd ⟨_, hpc⟩ hnobody

theorem not_watched_total {l : Label F W} (hnot : ¬ s.Watched) : ¬ (total step s l).Watched := by
  rw [total]
  cases hstep : s.step l with
  | none => exact hnot
  | some t => exact (effect_of_step hstep).not_watched hnot

/-- **What shutdown leaves.** When all workers have left, every task submitted has been taken and
executed exactly if no step of the run left one in `tasks_` with nobody there to look for it. -/
theorem emptied_iff_keeps [Nonempty W] {labels : List (Label F W)} (hnew : New s)
    (hrun : labels.foldlM step s = some t) (hleft : ∀ w, t.pc w = .left) :
    t.Emptied ↔ AllSteps (total step) Keeps s labels := by
  obtain ⟨hlast, hpossible⟩ := run_total hrun
  have hinv : t.Inv := by
    have hreach : Reachable Step New t := .of_run (fun _ _ _ hstep => hstep) (.start hnew) hrun
    exact hreach.invariant (fun _ => inv_of_new) fun _ _ _ h hstep => inv_step h hstep
  have hwatched : s.Watched := by
    intro hstop
    rw [hnew.stop] at hstop
    cases hstop
  have hexact : AllStates (total step) Watched s labels ↔ AllSteps (total step) Keeps s labels :=
    allStates_iff_allSteps (fun _ _ h _ hstep _ => inv_step h hstep)
      (fun _ _ _ hs hstep => (effect_of_step hstep).watched_iff hs) (inv_of_new hnew) hwatched
      hpossible
  rw [← hexact]
  constructor
  · -- what nobody looks for any more would be there at the end
    intro hemptied before hbefore
    by_contra hnot
    obtain ⟨after, rfl⟩ := hbefore
    have hnot' : ¬ (run (total step) s (before ++ after)).Watched := by
      rw [run_append]
      exact run_keeps (P := fun u : State F W => ¬ u.Watched) (fun _ _ => not_watched_total) hnot after
    rw [hlast] at hnot'
    exact hnot' fun _ => Or.inl hemptied.1
  · intro hall
    have hend : t.Watched := hlast ▸ hall labels (List.prefix_refl labels)
    obtain ⟨w⟩ := ‹Nonempty W›
    rcases hend (hinv.left w (hleft w)) with hempty | ⟨w', hw'⟩
    · exact hinv.emptied hleft hempty
    · rw [hleft w'] at hw'
      cases hw'

end Steps

section Examples

/-- When `stop_` is set, one worker has seen it unset and is still to take the second task. -/
def inTime : List (Label Nat Bool) :=
  .submit .func none :: callback false 7 ++ [.submit .func (some true), .test true, .stop, .test false,
    .select true, .dispatch true, .spawn true 8, .count true, .assert true, .exec true, .switchIn true,
    .yield true .term, .switchOut true, .uncount true, .check true, .recycle true, .test true]

theorem emptied_iff_keeps_inTime :
    ∃ t : State Nat Bool, inTime.foldlM step newScheduler = some t ∧ t.next = 2 ∧
      AllSteps (total step) Keeps newScheduler inTime := by
  obtain ⟨t, hrun, hvalue⟩ : ∃ t, inTime.foldlM step newScheduler = some t ∧
      (t.next, t.tasks, [t.pc false, t.pc true], [t.served 0, t.served 1]) =
        (2, [], [.left, .left], [true, true]) :=
    Option.map_eq_some_iff.mp (by decide)
  simp only [Prod.mk.injEq, List.cons.injEq, and_true] at hvalue
  obtain ⟨hnext, htasks, hleft, hserved⟩ := hvalue
  have hemptied : t.Emptied := by
    refine ⟨htasks, fun k hk => ?_⟩
    rw [hnext] at hk
    obtain rfl | rfl : k = 0 ∨ k = 1 := by omega
    · exact hserved.1
    · exact hserved.2
  exact ⟨t, hrun, hnext,
    (emptied_iff_keeps new_newScheduler hrun (Bool.forall_bool.mpr hleft)).mp hemptied⟩

/-- The workers find `stop_` set before they have looked for the task. -/
def tooLate : List (Label Nat Bool) := [.submit .func none, .stop, .test false, .test true]

theorem not_emptied_tooLate :
    ∃ t : State Nat Bool, tooLate.foldlM step newScheduler = some t ∧ (∀ w, t.pc w = .left) ∧
      ¬ t.Emptied := by
  obtain ⟨t, hrun, hvalue⟩ : ∃ t, tooLate.foldlM step newScheduler = some t ∧
      (t.tasks, [t.pc false, t.pc true]) = ([⟨.func, none, 0⟩], [.left, .left]) :=
    Option.map_eq_some_iff.mp (by decide)
  simp only [Prod.mk.injEq, List.cons.injEq, and_true] at hvalue
  refine ⟨t, hrun, Bool.forall_bool.mpr hvalue.2, fun hemptied => ?_⟩
  cases hvalue.1.symm.trans hemptied.1

end Examples

end State

end AsyncRPC.Scheduler
