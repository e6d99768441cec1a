import AsyncRPC.Proof.Durations
import AsyncRPC.Proof.TimerFrames
import AsyncRPC.Wakeup

/-!
# Who is woken

Whoever takes a task, or sees one that is for another thread, calls `Notify`, and `Notify` is in vain
only while no thread is idle. So just three things leave a task to workers that sleep, each of them for
three seconds at most. No timer is left so, and no write to the pipe is lost.
-/

namespace AsyncRPC.Wakeup

open Scheduler (Task)
open Transition

variable {F W P : Type} [DecidableEq F] [DecidableEq W] [DecidableEq P] {s t : State F W P} {w : W}
  {p : P} {pc : Pc F W} {l : Label F W P}

namespace State

/-- What a step asks of the state before it and makes of it. -/
inductive Stepped (s : State F W P) : Label F W P → State F W P → Prop
  | submit {p : P} {task : Option (Task F W)} (hout : s.notifier p = .outside) :
      Stepped s (.submit p task) (s.submit p task)
  | timers {p : P} {call : TimerCall} {timers : TimerHistory} (hout : s.notifier p = .outside)
      (hrun : s.timers.perform call = .ok timers) :
      Stepped s (.timers p call)
        { s.setNotifier p (if atFront s.timers.manager timers.manager call then .testing else .outside) with
          timers := timers }
  | test {p : P} (hidle : 0 < s.idleThreads) : Stepped s (.test p) (s.setNotifier p .writing)
  | testInVain {p : P} (hidle : s.idleThreads = 0) : Stepped s (.test p) (s.setNotifier p .outside)
  | write {p : P} : Stepped s (.write p) (s.signal.setNotifier p .outside)
  | look {w : W} {exec : List F} {task : Option (Task F W)} (hpc : s.pc w = .looking) :
      Stepped s (.look w exec)
        { s.goto w (.testing task) with tasks := s.tasks.eraseP (eligible w exec) }
  | pass {w : W} {exec : List F} (hpc : s.pc w = .looking)
      (hnone : ∀ task ∈ s.tasks, ∃ f ∈ exec, task.fiber = some f) :
      Stepped s (.look w exec)
        { s.goto w (.dispatching none) with tasks := s.tasks.eraseP (eligible w exec) }
  | testOwn {w : W} {task : Option (Task F W)} (hpc : s.pc w = .testing task)
      (hidle : 0 < s.idleThreads) : Stepped s (.testOwn w) (s.goto w (.writing task))
  | testOwnInVain {w : W} {task : Option (Task F W)} (hpc : s.pc w = .testing task)
      (hidle : s.idleThreads = 0) : Stepped s (.testOwn w) (s.goto w (.dispatching task))
  | writeOwn {w : W} {task : Option (Task F W)} (hpc : s.pc w = .writing task) :
      Stepped s (.writeOwn w) (s.signal.goto w (.dispatching task))
  | rest {w : W} {ended : Bool} {spare : F} (hpc : s.pc w = .dispatching none) :
      Stepped s (.dispatch w ended spare) (s.goto w .counting)
  | drop {w : W} {spare f : F} {task : Task F W} (hpc : s.pc w = .dispatching (some task))
      (hfiber : task.fiber = some f) : Stepped s (.dispatch w true spare) (s.goto w .counting)
  | resume {w : W} {ended : Bool} {spare f : F} {task : Task F W}
      (hpc : s.pc w = .dispatching (some task)) (halive : ∀ f, task.fiber = some f → ended = false) :
      Stepped s (.dispatch w ended spare) (s.goto w (.running f))
  | finish {w : W} {f : F} (hpc : s.pc w = .running f) : Stepped s (.finish w) (s.goto w .looking)
  | count {w : W} (hpc : s.pc w = .counting) :
      Stepped s (.count w) { s.goto w .computing with idleThreads := s.idleThreads + 1 }
  | compute {w : W} {curr : Nat} (hpc : s.pc w = .computing) :
      Stepped s (.compute w curr)
        (s.goto w (.waiting curr (IOManager.clampTimeout (s.timers.manager.getNextTimerTime curr))))
  | interrupt {w : W} {curr nextTime : Nat} (hpc : s.pc w = .waiting curr nextTime) :
      Stepped s (.interrupt w) (s.goto w (.waiting curr (IOManager.clampTimeout nextTime)))
  | wake {w : W} {curr nextTime : Nat} (hpc : s.pc w = .waiting curr nextTime) :
      Stepped s (.wake w) { s.goto w (.woken (s.ready && 0 < s.pipe)) with ready := false }
  | collect {w : W} {piped : Bool} {curr ptr : Nat} {timers : TimerHistory}
      (hpc : s.pc w = .woken piped)
      (hrun : s.timers.perform (.listOverTimeCallback curr ptr) = .ok timers) :
      Stepped s (.collect w curr ptr) { s.goto w (.collected piped) with timers := timers }
  | handle {w : W} {piped : Bool} (hpc : s.pc w = .collected piped) :
      Stepped s (.handle w) { s.goto w .leaving with pipe := if piped then 0 else s.pipe }
  | uncount {w : W} (hpc : s.pc w = .leaving) :
      Stepped s (.uncount w) { s.goto w .looking with idleThreads := s.idleThreads - 1 }

omit [DecidableEq P] in
/-- A worker that does not take a task and does not call `Notify` finds all tasks in the state `EXEC`. -/
theorem stepped_look (s : State F W P) (w : W) (exec : List F) :
    (∃ task, s.look w exec
        = { s.goto w (.testing task) with tasks := s.tasks.eraseP (eligible w exec) }) ∨
      (∀ task ∈ s.tasks, ∃ f ∈ exec, task.fiber = some f) ∧ s.look w exec
        = { s.goto w (.dispatching none) with tasks := s.tasks.eraseP (eligible w exec) } := by
  rw [look]
  dsimp only
  cases htickle : (s.tasks.find? (eligible w exec)).isSome || s.tasks.any (pinnedAway w) with
  | true =>
      rw [if_pos rfl]
      exact Or.inl ⟨_, rfl⟩
  | false =>
      obtain ⟨hnone, haway⟩ := Bool.or_eq_false_iff.mp htickle
      rw [if_neg Bool.false_ne_true]
      refine Or.inr ⟨fun task htask => ?_, rfl⟩
      have hnot : eligible w exec task = false := by
        have hfind : s.tasks.find? (eligible w exec) = none := by simpa using hnone
        simpa using List.find?_eq_none.mp hfind task htask
      have hhere : pinnedAway w task = false := by simpa using List.any_eq_false.mp haway task htask
      rw [eligible, hhere] at hnot
      cases hfiber : task.fiber with
      | none =>
          rw [hfiber] at hnot
          cases hnot
      | some f =>
          rw [hfiber] at hnot
          exact ⟨f, by simpa using hnot, rfl⟩

theorem stepped_of_step (hstep : s.step l = some t) : Stepped s l t := by
  cases l with
  | submit p task =>
      rw [step] at hstep
      split at hstep
      · next hout =>
        cases hstep
        exact .submit hout
      · cases hstep
  | timers p call =>
      rw [step] at hstep
      split at hstep
      · next hout =>
        obtain ⟨timers, hrun, rfl⟩ := Outcome.map_toOption_eq_some hstep
        exact .timers hout hrun
      · cases hstep
  | test p =>
      rw [step] at hstep
      split at hstep
      · cases hstep
        by_cases hidle : 0 < s.idleThreads
        · rw [if_pos hidle]
          exact .test hidle
        · rw [if_neg hidle]
          exact .testInVain (Nat.eq_zero_of_not_pos hidle)
      · cases hstep
  | write p =>
      rw [step] at hstep
      split at hstep
      · cases hstep
        exact .write
      · cases hstep
  | look w exec =>
      rw [step] at hstep
      split at hstep
      · next hpc =>
        cases hstep
        rcases stepped_look s w exec with ⟨task, heq⟩ | ⟨hnone, heq⟩
        · rw [heq]
          exact .look hpc
        · rw [heq]
          exact .pass hpc hnone
      · cases hstep
  | testOwn w =>
      rw [step] at hstep
      split at hstep
      · next task hpc =>
        cases hstep
        by_cases hidle : 0 < s.idleThreads
        · rw [if_pos hidle]
          exact .testOwn hpc hidle
        · rw [if_neg hidle]
          exact .testOwnInVain hpc (Nat.eq_zero_of_not_pos hidle)
      · cases hstep
  | writeOwn w =>
      rw [step] at hstep
      split at hstep
      · next task hpc =>
        cases hstep
        exact .writeOwn hpc
      · cases hstep
  | dispatch w ended spare =>
      rw [step] at hstep
      split at hstep
      · next task hpc =>
        cases hstep
        cases task with
        | none => exact .rest hpc
        | some task =>
            rw [dispatch]
            split
            · next f hwork =>
              have hfiber : task.fiber = some f := by rw [Task.fiber, hwork]
              cases ended with
              | true => exact .drop hpc hfiber
              | false => exact .resume hpc fun _ _ => rfl
            · next hwork =>
              refine .resume hpc fun f hfiber => ?_
              rw [Task.fiber, hwork] at hfiber
              cases hfiber
      · cases hstep
  | finish w =>
      rw [step] at hstep
      split at hstep
      · next f hpc =>
        cases hstep
        exact .finish hpc
      · cases hstep
  | count w | compute w curr | uncount w =>
      rw [step] at hstep
      split at hstep
      · next hpc =>
        cases hstep
        constructor
        exact hpc
      · cases hstep
  | interrupt w =>
      rw [step] at hstep
      split at hstep
      · next curr nextTime hpc =>
        cases hstep
        exact .interrupt hpc
      · cases hstep
  | wake w =>
      rw [step] at hstep
      split at hstep
      · next curr nextTime hpc =>
        cases hstep
        exact .wake hpc
      · cases hstep
  | collect w curr ptr =>
      rw [step] at hstep
      split at hstep
      · next piped hpc =>
        obtain ⟨timers, hrun, rfl⟩ := Outcome.map_toOption_eq_some hstep
        exact .collect hpc hrun
      · cases hstep
  | handle w =>
      rw [step] at hstep
      split at hstep
      · next piped hpc =>
        cases hstep
        exact .handle hpc
      · cases hstep

omit [DecidableEq F] in
/-- A worker has gone on, and some worker is still where the flag tells. -/
theorem exists_update {flag : Pc F W → Bool} {phase : W → Pc F W}
    (h : ∃ w', flag (phase w') = true) (hw : flag (phase w) = true → flag pc = true) :
    ∃ w', flag (Function.update phase w pc w') = true := by
  obtain ⟨w', hw'⟩ := h
  by_cases heq : w' = w
  · subst heq
    refine ⟨w', ?_⟩
    rw [Function.update_self]
    exact hw hw'
  · refine ⟨w', ?_⟩
    rw [Function.update_of_ne heq]
    exact hw'

/-! ### The pipe -/

section Pipe

variable [Fintype W]

/-- `idleThreads_` is changed by those who become idle or cease to be. -/
theorem census_step (h : s.idleThreads = Census.census Pc.idle s.pc) (hstep : s.step l = some t) :
    t.idleThreads = Census.census Pc.idle t.pc := by
  have hsame : ∀ {w : W} {old pc : Pc F W}, s.pc w = old → pc.idle = old.idle →
      s.idleThreads = Census.census Pc.idle (Function.update s.pc w pc) := by
    rintro w old pc rfl hidle
    rw [Census.census_same hidle]
    exact h
  cases stepped_of_step hstep with
  | submit _ | timers _ _ | test _ | testInVain _ | write => exact h
  | look hpc | pass hpc _ | testOwn hpc _ | testOwnInVain hpc _ | writeOwn hpc | rest hpc | drop hpc _
  | resume hpc _ | finish hpc | compute hpc | interrupt hpc | wake hpc | collect hpc _ | handle hpc =>
      exact hsame hpc rfl
  | @count w hpc =>
      have hold : (s.pc w).idle = false := by rw [hpc, Pc.idle]
      change s.idleThreads + 1 = Census.census Pc.idle (Function.update s.pc w .computing)
      rw [h, Census.census_enter hold rfl]
  | @uncount w hpc =>
      have hold : (s.pc w).idle = true := by rw [hpc, Pc.idle]
      change s.idleThreads - 1 = Census.census Pc.idle (Function.update s.pc w .looking)
      rw [h, ← Census.census_leave (x := .looking) hold rfl]
      rfl

theorem Accounted.step (h : s.Accounted) (hstep : s.step l = some t) : t.Accounted := by
  refine ⟨census_step h.idleThreads hstep, ?_⟩
  have hpipe := h.pipe
  -- a worker that has been told of the pipe stays so until it has read it
  have hgoes : ∀ {w : W} {old pc : Pc F W}, s.pc w = old → (old.reads = true → pc.reads = true) →
      0 < s.pipe → s.ready = true ∨ ∃ w', (Function.update s.pc w pc w').reads = true := by
    rintro w old pc rfl hreads hbytes
    exact (hpipe hbytes).imp_right fun hsome => exists_update hsome hreads
  cases stepped_of_step hstep with
  | submit _ | timers _ _ | test _ | testInVain _ => exact hpipe
  | write | writeOwn _ => exact fun _ => Or.inl rfl
  | look hpc | pass hpc _ | testOwn hpc _ | testOwnInVain hpc _ | rest hpc | drop hpc _ | resume hpc _
  | finish hpc | count hpc | compute hpc | interrupt hpc | uncount hpc =>
      exact hgoes hpc fun hreads => by cases hreads
  | collect hpc _ => exact hgoes hpc fun hreads => hreads
  | @wake w curr nextTime hpc =>
      intro hbytes
      have hbytes : 0 < s.pipe := hbytes
      refine Or.inr ?_
      by_cases hready : s.ready = true
      · refine ⟨w, ?_⟩
        change (Function.update s.pc w _ w).reads = true
        rw [Function.update_self, Pc.reads, hready, decide_eq_true hbytes]
        rfl
      · have hnew := @hgoes w _ (.woken (s.ready && 0 < s.pipe)) hpc fun hreads => by cases hreads
        exact (hnew hbytes).resolve_left hready
  | @handle w piped hpc =>
      cases piped with
      | true => exact fun hbytes => absurd hbytes (Nat.not_lt_zero _)
      | false => exact hgoes hpc fun hreads => by cases hreads

omit [DecidableEq F] [DecidableEq W] [DecidableEq P] in
theorem accounted_new (hnew : New s) : s.Accounted := by
  refine ⟨?_, fun hbytes => ?_⟩
  · rw [hnew.idleThreads, Census.census_eq_zero]
    intro w
    rw [hnew.pc w, Pc.idle]
  · rw [hnew.pipe] at hbytes
    cases hbytes

/-- **The pipe.** -/
theorem accounted_of_reached (h : Reachable Step New s) : s.Accounted :=
  h.invariant (fun _ hnew => accounted_new hnew) fun _ _ _ hs hstep => hs.step hstep

end Pipe

omit [DecidableEq F] [DecidableEq W] in
/-- A party that was not in `Notify` does something. -/
theorem Signalled.setNotifier (h : s.Signalled) (hout : s.notifier p = .outside) (notifier : Notifier) :
    (s.setNotifier p notifier).Signalled := by
  refine h.imp_right ?_
  rintro ⟨q, hq⟩
  have hne : q ≠ p := by
    rintro rfl
    exact hq hout
  refine ⟨q, ?_⟩
  change Function.update s.notifier p notifier q ≠ .outside
  rwa [Function.update_of_ne hne]

omit [DecidableEq F] [DecidableEq W] in
/-- The party is in `Notify` afterwards. -/
theorem signalled_setNotifier {notifier : Notifier} (h : notifier ≠ .outside) :
    (s.setNotifier p notifier).Signalled := by
  refine Or.inr ⟨p, ?_⟩
  change Function.update s.notifier p notifier p ≠ .outside
  rwa [Function.update_self]

/-! ### Tasks -/

omit [DecidableEq F] [DecidableEq P] in
theorem attended_of_stirring (h : s.Stirring) : s.Attended := fun _ _ _ _ _ => h

omit [DecidableEq F] [DecidableEq P] in
/-- The worker that goes on is about to look afterwards. -/
theorem stirring_of_stirs (hpc : t.pc = Function.update s.pc w pc) (hstirs : pc.stirs = true) :
    t.Stirring := by
  refine Or.inr ⟨w, ?_⟩
  rw [hpc, Function.update_self]
  exact hstirs

omit [DecidableEq F] [DecidableEq P] in
theorem takes_iff {task : Task F W} (hrunning : ∀ w f, t.pc w = .running f ↔ s.pc w = .running f) :
    t.Takes w task ↔ s.Takes w task :=
  and_congr_right fun _ => forall_congr' fun f => forall_congr' fun _ => forall_congr' fun w =>
    not_congr (hrunning w f)

omit [DecidableEq F] [DecidableEq P] in
/-- A worker that is not about to look goes on, and is not about to look. -/
theorem stirring_goto_iff (hold : (s.pc w).stirs = false) (hnew : pc.stirs = false) :
    (s.goto w pc).Stirring ↔ s.Stirring := by
  refine or_congr_right (exists_congr fun w' => ?_)
  change (Function.update s.pc w pc w').stirs = true ↔ _
  by_cases heq : w' = w
  · rw [heq, Function.update_self, hold, hnew]
  · rw [Function.update_of_ne heq]

omit [DecidableEq F] [DecidableEq P] in
/-- A worker goes on, and is in a certain place neither before nor after. -/
theorem goto_pc_iff {x : Pc F W} (hold : s.pc w ≠ x) (hnew : pc ≠ x) (w' : W) :
    (s.goto w pc).pc w' = x ↔ s.pc w' = x := by
  change Function.update s.pc w pc w' = x ↔ _
  by_cases heq : w' = w
  · rw [heq, Function.update_self]
    exact iff_of_false hnew hold
  · rw [Function.update_of_ne heq]

omit [DecidableEq F] [DecidableEq P] in
/-- A worker that is not about to look goes on, and does not fall asleep. -/
theorem Attended.goto (h : s.Attended) (hstirs : (s.pc w).stirs = false)
    (hdozes : pc.dozes = true → (s.pc w).dozes = true) (hrunning : ∀ f, s.pc w ≠ .running f) :
    (s.goto w pc).Attended := by
  intro w' hw' task htask htakes
  have hasleep : (s.pc w').dozes = true := by
    change (Function.update s.pc w pc w').dozes = true at hw'
    by_cases heq : w' = w
    · rw [heq, Function.update_self] at hw'
      exact heq ▸ hdozes hw'
    · rwa [Function.update_of_ne heq] at hw'
  have htakes' : s.Takes w' task := by
    refine ⟨htakes.1, fun f hf w'' hw'' => htakes.2 f hf w'' ?_⟩
    change Function.update s.pc w pc w'' = _
    rw [Function.update_of_ne]
    · exact hw''
    · rintro rfl
      exact hrunning f hw''
  refine (h w' hasleep task htask htakes').imp_right fun hsome => ?_
  refine exists_update hsome fun htrue => ?_
  rw [hstirs] at htrue
  cases htrue

omit [DecidableEq F] [DecidableEq P] in
/-- Whoever sleeps after the step had passed the tasks by before it, without being counted as idle. -/
theorem attended_iff_clear (htasks : t.tasks = s.tasks)
    (hrunning : ∀ w f, t.pc w = .running f ↔ s.pc w = .running f)
    (hdozes : ∀ w, (t.pc w).dozes = true → (s.pc w).passes = true)
    (hpasses : ∀ w, (s.pc w).passes = true → (t.pc w).dozes = true ∨ t.Stirring) :
    t.Attended ↔ t.Stirring ∨ s.Clear := by
  constructor
  · intro h
    by_cases hstirring : t.Stirring
    · exact Or.inl hstirring
    · refine Or.inr fun w hw task htask htakes => hstirring ?_
      have hasleep := (hpasses w hw).resolve_right hstirring
      exact h w hasleep task (htasks ▸ htask) ((takes_iff hrunning).mpr htakes)
  · rintro (hstirring | hclear)
    · exact attended_of_stirring hstirring
    · intro w hw task htask htakes
      exact absurd ((takes_iff hrunning).mp htakes) (hclear w (hdozes w hw) task (htasks ▸ htask))

omit [DecidableEq F] in
theorem attended_submit_iff {task : Option (Task F W)} (h : s.Attended) (hout : s.notifier p = .outside) :
    (s.submit p task).Attended ↔ s.Timely (.submit p task) := by
  rw [Timely]
  by_cases hempty : s.tasks = []
  · refine iff_of_true (attended_of_stirring (Or.inl ?_)) (Or.inl hempty)
    have hsubmit : s.submit p task
        = { s.setNotifier p .testing with tasks := s.tasks ++ task.toList } := by
      rw [submit, hempty]
      rfl
    have hnotifies : (s.setNotifier p .testing).Signalled := signalled_setNotifier (by decide)
    rw [hsubmit]
    exact hnotifies
  · have hsame : s.submit p task = { s with tasks := s.tasks ++ task.toList } := by
      rw [submit, if_neg (by simpa using hempty), State.setNotifier, ← hout, Function.update_eq_self]
    rw [hsame, or_iff_right hempty]
    constructor
    · intro hnext
      by_cases hstirring : s.Stirring
      · exact Or.inl hstirring
      · refine Or.inr fun new hnew w hw htakes => hstirring ?_
        apply hnext w hw new _ htakes
        exact List.mem_append_right _ (Option.mem_toList.mpr hnew)
    · rintro (hstirring | hnobody)
      · exact fun _ _ _ _ _ => hstirring
      · intro w hw new hnew htakes
        rcases List.mem_append.mp hnew with hold | hlast
        · exact h w hw new hold htakes
        · exact absurd htakes (hnobody new (Option.mem_toList.mp hlast) w hw)

omit [DecidableEq F] [DecidableEq W] [DecidableEq P] in
/-- With no idle thread whoever sleeps has just passed the tasks by. -/
theorem passes_of_dozes [Fintype W] (hcensus : s.idleThreads = Census.census Pc.idle s.pc)
    (hidle : s.idleThreads = 0) (hw : (s.pc w).dozes = true) : (s.pc w).passes = true := by
  have hbusy : ¬ (s.pc w).idle = true := by
    intro hcounted
    have hpos := Census.census_pos hcounted
    omega
  cases hpc : s.pc w with
  | computing | waiting curr nextTime =>
      rw [hpc] at hbusy
      exact absurd rfl hbusy
  | counting => rfl
  | dispatching task =>
      rw [hpc] at hw
      cases task with
      | none => rfl
      | some task => cases hw
  | looking | testing task | writing task | running f | woken piped | collected piped | leaving =>
      rw [hpc] at hw
      cases hw

omit [DecidableEq F] [DecidableEq W] [DecidableEq P] in
/-- Who passes the tasks by sleeps, or is about to wake others. -/
theorem dozes_or_stirs (hpc : pc.passes = true) : pc.dozes = true ∨ pc.stirs = true := by
  cases pc with
  | counting => exact Or.inl rfl
  | testing task | writing task => exact Or.inr rfl
  | dispatching task =>
      cases task with
      | none => exact Or.inl rfl
      | some task => cases hpc
  | looking | running f | computing | waiting curr nextTime | woken piped | collected piped | leaving =>
      cases hpc

omit [DecidableEq F] in
theorem attended_testInVain_iff [Fintype W] (hcensus : s.idleThreads = Census.census Pc.idle s.pc)
    (hidle : s.idleThreads = 0) : (s.setNotifier p .outside).Attended ↔ s.Timely (.test p) := by
  rw [Timely, or_iff_right (by omega)]
  apply attended_iff_clear rfl
  · exact fun _ _ => Iff.rfl
  · exact fun w hw => passes_of_dozes hcensus hidle hw
  · exact fun w hw => (dozes_or_stirs hw).imp_right fun hstirs => Or.inr ⟨w, hstirs⟩

omit [DecidableEq F] in
theorem attended_testOwnInVain_iff [Fintype W] {task : Option (Task F W)}
    (hcensus : s.idleThreads = Census.census Pc.idle s.pc) (hpc : s.pc w = .testing task)
    (hidle : s.idleThreads = 0) : (s.goto w (.dispatching task)).Attended ↔ s.Timely (.testOwn w) := by
  have hstirring : (s.goto w (.dispatching task)).Stirring ↔ (s.goto w .counting).Stirring := by
    have hcounting : (s.goto w .counting).pc w = .counting := Function.update_self _ _ _
    have hagain : (s.goto w .counting).goto w (.dispatching task) = s.goto w (.dispatching task) := by
      simp only [goto, Function.update_idem]
    rw [← hagain]
    exact stirring_goto_iff (by rw [hcounting]; rfl) rfl
  rw [Timely, or_iff_right (by omega), ← hstirring]
  have hself : (s.goto w (.dispatching task)).pc w = .dispatching task := Function.update_self _ _ _
  have hother : ∀ w', w' ≠ w → (s.goto w (.dispatching task)).pc w' = s.pc w' :=
    fun w' hne => Function.update_of_ne hne _ _
  have htasks : (s.goto w (.dispatching task)).tasks = s.tasks := rfl
  apply attended_iff_clear htasks
  · intro w' f
    apply goto_pc_iff
    · exact fun heq => by cases hpc.symm.trans heq
    · exact fun heq => by cases heq
  · intro w' hw'
    by_cases heq : w' = w
    · rw [heq, hself] at hw'
      rw [heq, hpc]
      cases task with
      | none => rfl
      | some task => cases hw'
    · rw [hother w' heq] at hw'
      exact passes_of_dozes hcensus hidle hw'
  · intro w' hw'
    by_cases heq : w' = w
    · rw [heq, hpc] at hw'
      rw [heq, hself]
      cases task with
      | none => exact Or.inl rfl
      | some task => cases hw'
    · rw [hother w' heq]
      refine (dozes_or_stirs hw').imp_right fun hstirs => Or.inr ⟨w', ?_⟩
      rw [hother w' heq]
      exact hstirs

omit [DecidableEq F] in
theorem attended_drop_iff {task : Task F W} {f spare : F} (h : s.Attended)
    (hpc : s.pc w = .dispatching (some task)) (hfiber : task.fiber = some f) :
    (s.goto w .counting).Attended ↔ s.Timely (.dispatch w true spare) := by
  have hstirring : (s.goto w .counting).Stirring ↔ s.Stirring :=
    stirring_goto_iff (by rw [hpc]; rfl) rfl
  have hrunning : ∀ w' f, (s.goto w .counting).pc w' = .running f ↔ s.pc w' = .running f := by
    intro w' f
    apply goto_pc_iff
    · exact fun heq => by cases hpc.symm.trans heq
    · exact fun heq => by cases heq
  constructor
  · intro hnext _ _ _ _ _
    by_cases hstir : s.Stirring
    · exact Or.inl hstir
    · refine Or.inr fun other hother htakes => hstir (hstirring.mp ?_)
      apply hnext w _ other hother ((takes_iff hrunning).mpr htakes)
      change (Function.update s.pc w .counting w).dozes = true
      rw [Function.update_self]
      rfl
  · intro htimely
    rcases htimely task f hpc hfiber rfl with hstir | hnobody
    · exact attended_of_stirring (hstirring.mpr hstir)
    · intro w' hw' other hother htakes
      have htakes' : s.Takes w' other := (takes_iff hrunning).mp htakes
      by_cases heq : w' = w
      · exact absurd (heq ▸ htakes') (hnobody other hother)
      · have hasleep : (s.pc w').dozes = true := by
          change (Function.update s.pc w .counting w').dozes = true at hw'
          rwa [Function.update_of_ne heq] at hw'
        exact hstirring.mpr (h w' hasleep other hother htakes')

/-- **What one step makes of the tasks.** -/
theorem attended_step_iff [Fintype W] (h : s.Attended)
    (hcensus : s.idleThreads = Census.census Pc.idle s.pc) (hpossible : s.Possible l)
    (hstep : s.step l = some t) : t.Attended ↔ s.Timely l := by
  cases stepped_of_step hstep with
  | submit hout => exact attended_submit_iff h hout
  | timers hout hrun =>
      refine iff_of_true (fun w hw task htask htakes => ?_) trivial
      exact (h w hw task htask htakes).imp_left fun hsig => hsig.setNotifier hout _
  | test hidle =>
      refine iff_of_true (attended_of_stirring (Or.inl ?_)) (Or.inl hidle)
      exact signalled_setNotifier (by decide)
  | testInVain hidle => exact attended_testInVain_iff hcensus hidle
  | write | writeOwn hpc =>
      refine iff_of_true (attended_of_stirring (Or.inl (Or.inl ?_))) trivial
      exact ⟨rfl, Nat.succ_pos _⟩
  | look hpc | finish hpc | wake hpc | collect hpc _ | handle hpc | uncount hpc =>
      exact iff_of_true (attended_of_stirring (stirring_of_stirs rfl rfl)) trivial
  | @pass w exec hpc hnone =>
      -- nobody can take a task that is being run, and the runner will look
      refine iff_of_true (fun w' _ task htask htakes => ?_) trivial
      obtain ⟨f, hf, hfiber⟩ := hnone task (List.mem_of_mem_eraseP htask)
      obtain ⟨w'', hw''⟩ := hpossible f hf
      refine absurd ?_ (htakes.2 f hfiber w'')
      change Function.update s.pc w _ w'' = _
      rw [Function.update_of_ne]
      · exact hw''
      · rintro rfl
        cases hpc.symm.trans hw''
  | testOwn hpc hidle =>
      exact iff_of_true (attended_of_stirring (stirring_of_stirs rfl rfl)) (Or.inl hidle)
  | testOwnInVain hpc hidle => exact attended_testOwnInVain_iff hcensus hpc hidle
  | rest hpc =>
      refine iff_of_true (h.goto ?_ ?_ ?_) fun task f heq => ?_
      · rw [hpc]
        rfl
      · rw [hpc]
        exact fun _ => rfl
      · exact fun f heq => by cases hpc.symm.trans heq
      · cases hpc.symm.trans heq
  | drop hpc hfiber => exact attended_drop_iff h hpc hfiber
  | resume hpc halive =>
      refine iff_of_true (h.goto ?_ ?_ ?_) fun task f heq hfiber hended => ?_
      · rw [hpc]
        rfl
      · exact fun hdozes => by cases hdozes
      · exact fun f heq => by cases hpc.symm.trans heq
      · cases hpc.symm.trans heq
        rw [halive f hfiber] at hended
        cases hended
  | count hpc | compute hpc | interrupt hpc =>
      refine iff_of_true (h.goto ?_ ?_ ?_) trivial
      · rw [hpc]
        rfl
      · rw [hpc]
        exact fun _ => rfl
      · exact fun f heq => by cases hpc.symm.trans heq

/-- A call after which nobody is told leaves no timer due before all that there were: the first of the
set was there before, or it is the one that was put off. -/
theorem exists_due {h h' : TimerHistory} {call : TimerCall} {id : Nat} (hinv : h.Inv)
    (hpossible : h.Possible call) (hpass : ∀ curr ptr, call ≠ .listOverTimeCallback curr ptr)
    (hrefresh : ∀ id now, call = .refresh id now →
      (h.manager.objects id).next ≤ Word.addSize now (h.manager.objects id).ms)
    (hrun : h.perform call = .ok h') (hfront : atFront h.manager h'.manager call = false)
    (hid : id ∈ h'.manager.timers) :
    ∃ old ∈ h.manager.timers, (h.manager.objects old).next ≤ (h'.manager.objects id).next := by
  obtain ⟨hinv', hfollows, -, -⟩ := hinv.performs hpossible hrun
  obtain ⟨first, hfirst⟩ := TimerManager.exists_head hid
  have hle := hinv'.holds.next_head_le hfirst hid
  have hin : first ∈ h'.manager.timers := List.mem_of_mem_head? hfirst
  have harmed : (h'.manager.objects first).callback.isSome := (hinv'.holds.armed first).mpr (Or.inl hin)
  by_cases htouched : first ∈ h.touches call
  · cases call with
    | addTimer ptr now ms callback recurring =>
        rw [atFront, hfirst] at hfront
        exact absurd htouched (by simpa [TimerHistory.touches, eq_comm] using hfront)
    | cancel target =>
        obtain rfl : target = first := Option.some.inj htouched
        obtain ⟨answer, hcancel, -⟩ := TimerHistory.perform_cancel_eq_ok hrun
        rw [(TimerManager.cancel_callback hcancel).1] at harmed
        cases harmed
    | refresh target now =>
        obtain rfl : target = first := Option.some.inj htouched
        have hbefore : (h.manager.objects target).callback.isSome := by
          rw [Option.isSome_iff_ne_none]
          intro hnone
          rw [hfollows.callback_none target hpossible hnone] at harmed
          cases harmed
        refine ⟨target, hinv.holds.mem_timers hbefore, le_trans ?_ hle⟩
        cases hrun
        rcases TimerManager.refresh_next h.manager target now with hstays | hmoves
        · exact hstays.ge
        · exact hmoves.ge.trans' (hrefresh target now rfl)
    | reset target ms fromNow now =>
        obtain rfl : target = first := Option.some.inj htouched
        have hkeeps : (h.manager.objects target).ms = ms ∧ fromNow = false ∨
            (h.manager.objects target).callback = none := by
          by_contra hnot
          obtain ⟨hmoves, hsome⟩ := not_or.mp hnot
          rw [atFront, hfirst] at hfront
          exact absurd hfront (by simp [hmoves, Option.isSome_iff_ne_none, hsome])
        cases hrun
        rw [TimerManager.reset_of_keeps hkeeps] at hid ⊢
        exact ⟨id, hid, le_rfl⟩
    | listOverTimeCallback curr ptr => exact absurd rfl (hpass curr ptr)
  · obtain ⟨hold, hnext⟩ := hinv.mem_of_not_touched hinv' hrun hpass htouched hin
    exact ⟨first, hold, hnext ▸ hle⟩

theorem short_step (h : ∀ w curr nextTime, s.pc w = .waiting curr nextTime → nextTime ≤ 3000)
    (hunhurried : s.Unhurried l) (hstep : s.step l = some t) :
    ∀ w curr nextTime, t.pc w = .waiting curr nextTime → nextTime ≤ 3000 := by
  have hgoes : ∀ {w : W} {pc : Pc F W},
      (∀ curr nextTime, pc = .waiting curr nextTime → nextTime ≤ 3000) → ∀ w' curr nextTime,
      Function.update s.pc w pc w' = .waiting curr nextTime → nextTime ≤ 3000 := by
    intro w pc hpc w' curr nextTime hw'
    by_cases heq : w' = w
    · rw [heq, Function.update_self] at hw'
      exact hpc curr nextTime hw'
    · rw [Function.update_of_ne heq] at hw'
      exact h w' curr nextTime hw'
  cases stepped_of_step hstep with
  | submit _ | timers _ _ | test _ | testInVain _ | write => exact h
  | look _ | pass _ _ | testOwn _ _ | testOwnInVain _ _ | writeOwn _ | rest _ | drop _ _ | resume _ _
  | finish _ | count _ | wake _ | collect _ _ | handle _ | uncount _ =>
      exact hgoes fun _ _ heq => by cases heq
  | compute hpc =>
      apply hgoes
      intro _ _ heq
      cases heq
      exact (IOManager.clampTimeout_le hunhurried).1
  | interrupt hpc =>
      apply hgoes
      intro _ _ heq
      cases heq
      have hle := h _ _ _ hpc
      rwa [IOManager.clampTimeout_of_le hle]

omit [DecidableEq F] [DecidableEq W] [DecidableEq P] in
theorem punctual_of_signalled (h : s.Signalled) : s.Punctual := fun _ => Or.inl (Or.inl h)

omit [DecidableEq F] [DecidableEq P] in
/-- The worker that goes on will ask for the next timer. -/
theorem punctual_of_asks (hpc : t.pc = Function.update s.pc w pc) (hasks : pc.asks = true) :
    t.Punctual := by
  refine fun _ => Or.inl (Or.inr ⟨w, ?_⟩)
  rw [hpc, Function.update_self]
  exact hasks

omit [DecidableEq F] [DecidableEq W] [DecidableEq P] in
/-- No worker waits while no thread is idle. -/
theorem not_waiting [Fintype W] (hcensus : s.idleThreads = Census.census Pc.idle s.pc)
    (hidle : s.idleThreads = 0) (w : W) (curr nextTime : Nat) : s.pc w ≠ .waiting curr nextTime := by
  intro hw
  have hpos : 0 < Census.census Pc.idle s.pc := by
    apply Census.census_pos (p := w)
    rw [hw, Pc.idle]
  omega

omit [DecidableEq F] [DecidableEq W] [DecidableEq P] in
/-- No worker moves, and no timer is due before all that there were. -/
theorem Punctual.keep (h : s.Punctual) (hsignalled : s.Signalled → t.Signalled) (hpc : t.pc = s.pc)
    (hdue : ∀ id ∈ t.timers.manager.timers, ∃ old ∈ s.timers.manager.timers,
      (s.timers.manager.objects old).next ≤ (t.timers.manager.objects id).next) : t.Punctual := by
  intro hwaiting
  rw [hpc] at hwaiting
  rcases h hwaiting with hsomebody | ⟨w, curr, nextTime, hw, hall⟩
  · refine Or.inl (hsomebody.imp hsignalled ?_)
    rw [hpc]
    exact id
  · refine Or.inr ⟨w, curr, nextTime, hpc ▸ hw, fun id hid => ?_⟩
    obtain ⟨old, hold, hle⟩ := hdue id hid
    calc Word.intOfSize nextTime
        ≤ ((s.timers.manager.objects old).next - curr : Nat) := hall old hold
      _ ≤ ((t.timers.manager.objects id).next - curr : Nat) := by omega

omit [DecidableEq F] [DecidableEq P] in
/-- A worker goes on that neither waits nor asks. -/
theorem Punctual.goto (h : s.Punctual) (hasks : (s.pc w).asks = false)
    (hold : ∀ curr nextTime, s.pc w ≠ .waiting curr nextTime)
    (hnew : ∀ curr nextTime, pc ≠ .waiting curr nextTime) : (s.goto w pc).Punctual := by
  have hsame : ∀ w' curr nextTime,
      (s.goto w pc).pc w' = .waiting curr nextTime ↔ s.pc w' = .waiting curr nextTime :=
    fun w' curr nextTime => goto_pc_iff (hold curr nextTime) (hnew curr nextTime) w'
  rintro ⟨w', curr, nextTime, hw'⟩
  rcases h ⟨w', curr, nextTime, (hsame w' curr nextTime).mp hw'⟩ with hsomebody | hsome
  · refine Or.inl (hsomebody.imp_right fun hask => exists_update hask fun htrue => ?_)
    rw [hasks] at htrue
    cases htrue
  · obtain ⟨w'', curr', nextTime', hw'', hall⟩ := hsome
    exact Or.inr ⟨w'', curr', nextTime', (hsame w'' curr' nextTime').mpr hw'', hall⟩

omit [DecidableEq F] [DecidableEq P] in
/-- The worker that asks for the next timer waits no longer than until any is due. -/
theorem punctual_compute {curr : Nat} (hinv : s.timers.Inv)
    (hunhurried : s.Unhurried (.compute w curr)) :
    (s.goto w
      (.waiting curr (IOManager.clampTimeout (s.timers.manager.getNextTimerTime curr)))).Punctual := by
  obtain ⟨hshort, hnext⟩ := IOManager.clampTimeout_le hunhurried
  intro _
  refine Or.inr ⟨w, curr, _, Function.update_self _ _ _, fun id hid => ?_⟩
  rw [Word.intOfSize_eq_self_iff.mpr (by omega)]
  have hdue := hinv.holds.getNextTimerTime_le hid curr
  by_cases hnone : s.timers.manager.getNextTimerTime curr = 2 ^ 64 - 1
  · change ((IOManager.clampTimeout _ : Nat) : Int) ≤ ((s.timers.manager.objects id).next - curr : Nat)
    omega
  · have hle := hnext hnone
    change ((IOManager.clampTimeout _ : Nat) : Int) ≤ ((s.timers.manager.objects id).next - curr : Nat)
    omega

/-- What is known of the timers and of those who wait for them. -/
structure Watched [Fintype W] (s : State F W P) : Prop where
  timers : s.timers.Inv
  idleThreads : s.idleThreads = Census.census Pc.idle s.pc
  short : ∀ w curr nextTime, s.pc w = .waiting curr nextTime → nextTime ≤ 3000
  punctual : s.Punctual

theorem inv_timers_step (h : s.timers.Inv) (hpossible : s.Possible l) (hstep : s.step l = some t) :
    t.timers.Inv := by
  cases stepped_of_step hstep with
  | timers _ hrun => exact (h.performs hpossible.1 hrun).1
  | @collect w piped curr ptr timers hpc hrun =>
      have hunused : s.timers.Possible (.listOverTimeCallback curr ptr) := hpossible
      exact (h.performs hunused hrun).1
  | submit _ | test _ | testInVain _ | write | look _ | pass _ _ | testOwn _ _ | testOwnInVain _ _
  | writeOwn _ | rest _ | drop _ _ | resume _ _ | finish _ | count _ | compute _ | interrupt _ | wake _
  | handle _ | uncount _ => exact h

theorem punctual_step [Fintype W] (h : s.Watched) (hpossible : s.Possible l)
    (hunhurried : s.Unhurried l) (hstep : s.step l = some t) : t.Punctual := by
  have hsame : ∀ id ∈ s.timers.manager.timers, ∃ old ∈ s.timers.manager.timers,
      (s.timers.manager.objects old).next ≤ (s.timers.manager.objects id).next :=
    fun id hid => ⟨id, hid, le_rfl⟩
  cases stepped_of_step hstep with
  | submit hout => exact h.punctual.keep (fun hsig => hsig.setNotifier hout _) rfl hsame
  | @timers p call timers hout hrun =>
      cases hfront : atFront s.timers.manager timers.manager call with
      | true =>
          apply punctual_of_signalled
          have hnotifies : (s.setNotifier p .testing).Signalled := signalled_setNotifier (by decide)
          exact hnotifies
      | false =>
          refine h.punctual.keep (fun hsig => hsig.setNotifier hout _) rfl fun id hid => ?_
          refine exists_due h.timers hpossible.1 hpossible.2 ?_ hrun hfront hid
          rintro target now rfl
          exact hunhurried
  | test hidle => exact punctual_of_signalled (signalled_setNotifier (by decide))
  | testInVain hidle =>
      rintro ⟨w, curr, nextTime, hw⟩
      exact absurd hw (not_waiting h.idleThreads hidle w curr nextTime)
  | write | writeOwn hpc => exact punctual_of_signalled (Or.inl ⟨rfl, Nat.succ_pos _⟩)
  | look hpc | pass hpc _ | testOwn hpc _ | rest hpc | drop hpc _ | finish hpc | count hpc | wake hpc
  | collect hpc _ | handle hpc | uncount hpc => exact punctual_of_asks rfl rfl
  | @testOwnInVain w task hpc hidle =>
      rintro ⟨w', curr, nextTime, hw'⟩
      have hbefore : s.pc w' = .waiting curr nextTime := by
        refine (goto_pc_iff ?_ ?_ w').mp hw'
        · exact fun heq => by cases hpc.symm.trans heq
        · exact fun heq => by cases heq
      exact absurd hbefore (not_waiting h.idleThreads hidle w' curr nextTime)
  | resume hpc halive =>
      apply h.punctual.goto
      · rw [hpc]
        rfl
      · exact fun _ _ heq => by cases hpc.symm.trans heq
      · exact fun _ _ heq => by cases heq
  | compute hpc => exact punctual_compute h.timers hunhurried
  | interrupt hpc =>
      rw [IOManager.clampTimeout_of_le (h.short _ _ _ hpc), goto, ← hpc, Function.update_eq_self]
      exact h.punctual

theorem Watched.step [Fintype W] (h : s.Watched) (hpossible : s.Possible l)
    (hunhurried : s.Unhurried l) (hstep : s.step l = some t) : t.Watched where
  timers := inv_timers_step h.timers hpossible hstep
  idleThreads := census_step h.idleThreads hstep
  short := short_step h.short hunhurried hstep
  punctual := punctual_step h hpossible hunhurried hstep

/-- **No timer is left to sleepers.** -/
theorem prompt_of_reached [Fintype W]
    (h : Reachable (Guarded (fun s l => s.Possible l ∧ s.Unhurried l) Step) New s) :
    s.Bounded ∧ s.Punctual := by
  have hwatched : s.Watched := by
    refine h.invariant ?_ fun _ _ _ hs hstep => hs.step hstep.1.1 hstep.1.2 hstep.2
    intro s hnew
    have hnobody : ∀ w curr nextTime, s.pc w ≠ .waiting curr nextTime := by
      intro w curr nextTime hw
      cases (hnew.pc w).symm.trans hw
    refine ⟨hnew.timers ▸ TimerHistory.inv_init, (accounted_new hnew).idleThreads, ?_, ?_⟩
    · exact fun w curr nextTime hw => absurd hw (hnobody w curr nextTime)
    · exact fun ⟨w, curr, nextTime, hw⟩ => absurd hw (hnobody w curr nextTime)
  refine ⟨fun w curr nextTime hw => ?_, hwatched.punctual⟩
  have hle := hwatched.short w curr nextTime hw
  rw [Word.intOfSize_eq_self_iff.mpr (by omega)]
  omega

end State

section Examples

variable {W : Type} [DecidableEq W]

def started (W : Type) : State Unit W Unit :=
  { tasks := []
    timers := .init
    idleThreads := 0
    pipe := 0
    ready := false
    pc := fun _ => .looking
    notifier := fun _ => .outside }

def unused (s : State Unit W Unit) (ptr : Nat) : Bool :=
  s.timers.manager.timers.all fun id => (s.timers.manager.objects id).ptr ≠ ptr

/-- What the runs below consist of. -/
def allowed (s : State Unit W Unit) : Label Unit W Unit → Bool
  | .look _ exec => exec.isEmpty
  | .timers _ (.addTimer ptr _ _ callback _) => unused s ptr && callback.isSome
  | .timers _ _ => false
  | .compute _ curr => s.timers.manager.getNextTimerTime curr = 2 ^ 64 - 1 ∨
      s.timers.manager.getNextTimerTime curr % 2 ^ 32 < 2 ^ 31
  | .collect _ _ ptr => unused s ptr
  | _ => true

omit [DecidableEq W] in
theorem possible_of_allowed {s : State Unit W Unit} {l : Label Unit W Unit} (h : allowed s l = true) :
    s.Possible l ∧ s.Unhurried l := by
  have hunused : ∀ {ptr}, unused s ptr = true → s.timers.Unused ptr := by
    intro ptr hall id hid
    exact of_decide_eq_true (List.all_eq_true.mp hall id hid)
  cases l with
  | look w exec =>
      obtain rfl := List.isEmpty_iff.mp h
      exact ⟨fun f hf => absurd hf List.not_mem_nil, trivial⟩
  | timers p call =>
      cases call with
      | addTimer ptr now ms callback recurring =>
          obtain ⟨hall, hsome⟩ := Bool.and_eq_true_iff.mp h
          exact ⟨⟨⟨hunused hall, hsome⟩, fun _ _ heq => by cases heq⟩, trivial⟩
      | cancel id | refresh id now | reset id ms fromNow now | listOverTimeCallback curr ptr => cases h
  | compute w curr =>
      refine ⟨trivial, ?_⟩
      rw [State.Unhurried]
      exact of_decide_eq_true h
  | collect w curr ptr => exact ⟨hunused h, trivial⟩
  | submit p task | test p | write p | testOwn w | writeOwn w | dispatch w ended spare | finish w
  | count w | interrupt w | wake w | handle w | uncount w => exact ⟨trivial, trivial⟩

omit [DecidableEq W] in
theorem new_started : New (started W) := ⟨rfl, rfl, rfl, rfl, rfl, fun _ => rfl, fun _ => rfl⟩

theorem reached_labels {labels : List (Label Unit W Unit)} {look : State Unit W Unit → Bool}
    (h : (labels.foldlM (guarded (fun s l => allowed s l = true) State.step) (started W)).map look
      = some true) :
    ∃ s, Reachable (Guarded (fun s l => s.Possible l ∧ s.Unhurried l) State.Step) New s ∧
      look s = true := by
  obtain ⟨s, hrun, hlook⟩ := Option.map_eq_some_iff.mp h
  refine ⟨s, Reachable.of_run (fun s l t hstep => ?_) (.start new_started) hrun, hlook⟩
  obtain ⟨hallowed, hstep⟩ := guarded_step s l t hstep
  exact ⟨possible_of_allowed hallowed, hstep⟩

theorem enabled_of_run {labels : List (Label Unit W Unit)} {s t : State Unit W Unit}
    (hrun : labels.foldlM (guarded (fun s l => allowed s l = true) State.step) s = some t) :
    AllSteps (total State.step) State.Enabled s labels ∧ run (total State.step) s labels = t := by
  induction labels generalizing s with
  | nil =>
      cases hrun
      exact ⟨allSteps_nil, rfl⟩
  | cons l labels ih =>
      rw [List.foldlM_cons] at hrun
      obtain ⟨u, hguarded, hrest⟩ := Option.bind_eq_some_iff.mp hrun
      obtain ⟨hallowed, hstep⟩ := guarded_step s l u hguarded
      have hstep : s.step l = some u := hstep
      have hu : total State.step s l = u := by
        rw [total, hstep]
        rfl
      obtain ⟨hsteps, hlast⟩ := ih hrest
      refine ⟨allSteps_cons.mpr ⟨⟨(possible_of_allowed hallowed).1, ?_⟩, ?_⟩, ?_⟩
      · rw [hstep]
        rfl
      · rwa [hu]
      · rw [← hlast, ← hu]
        rfl

/-- A task is submitted while the only worker is on its way from the tasks to `++idleThreads_`. -/
def race : List (Label Unit Unit Unit) :=
  [.look () [], .submit () (some ⟨.func, none, 0⟩), .test (), .dispatch () false (), .count (),
    .compute () 0]

/-- A worker waits, and a timer is made that is due before. -/
def alarm : List (Label Unit Bool Unit) :=
  [.look true [], .dispatch true false (), .count true, .compute true 0,
    .timers () (.addTimer 8 10 500 (some 1) false), .test (), .write ()]

/-- The worker wakes up and waits for the timer. -/
def rewait : List (Label Unit Bool Unit) :=
  alarm ++ [.wake true, .collect true 11 16, .handle true, .uncount true, .look true [],
    .dispatch true false (), .count true, .compute true 12]

theorem accounted_of_reached_alarm : ∃ s : State Unit Bool Unit, s.pipe = 1 ∧ s.Accounted := by
  have hlast : ((alarm.foldlM State.step (started Bool)).map fun s => decide (s.pipe = 1))
      = some true := by decide +kernel
  obtain ⟨s, hrun, hlook⟩ := Option.map_eq_some_iff.mp hlast
  refine ⟨s, of_decide_eq_true hlook, State.accounted_of_reached ?_⟩
  exact Reachable.of_run (fun _ _ _ hstep => hstep) (.start new_started) hrun

theorem prompt_of_reached_rewait : ∃ s : State Unit Bool Unit,
    s.pc true = .waiting 12 498 ∧ s.Bounded ∧ s.Punctual := by
  obtain ⟨s, hs, hlook⟩ := @reached_labels _ _ rewait (fun s => s.pc true = .waiting 12 498)
    (by decide +kernel)
  exact ⟨s, of_decide_eq_true hlook, State.prompt_of_reached hs⟩

end Examples

end AsyncRPC.Wakeup
