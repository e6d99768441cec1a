import AsyncRPC.Proof.IOManager

/-!
# Which batches are dispatched right

Every round works on the context of the first entry. So a batch is dispatched right just where that
makes no difference: what the later entries report concerns nobody, in their own contexts or in the
first one.
-/

namespace AsyncRPC.IOManager.Manager

variable {layout : Layout} {m : Manager} {fd : Fd} {first : BitVec 64} {e : Entry}

/-- An entry that carries the user data it was registered with. -/
def Genuine (layout : Layout) (e : Entry) : Prop :=
  match e.source with
  | .pipe => e.event.data = layout.pipeData
  | .socket fd => e.event.data = layout.addr fd

theorem Genuine.dataFd_eq_iff (h : Genuine layout e) :
    dataFd layout.host e.event.data = layout.pipefd ↔ e.source = .pipe := by
  rw [Genuine] at h
  split at h
  · next hsource =>
    rw [h, hsource]
    exact iff_of_true layout.dataFd_pipeData rfl
  · next hsource =>
    rw [h, hsource]
    exact iff_of_false (layout.dataFd_addr _) (by simp)

/-- The round passes over the entry. -/
def Passes (left : Events) (e : Entry) : Prop :=
  e.source = .pipe ∨ (e.realEvent left).inter left = .none

theorem round_passes (hfirst : layout.resolve first = some fd) (hgenuine : Genuine layout e)
    (h : Passes (m.context fd).events e) : round layout first m e = .ok m := by
  rcases h with hpipe | hmiss
  · exact round_pipe (hgenuine.dataFd_eq_iff.mpr hpipe)
  · exact round_skip hfirst hmiss

theorem foldlM_passes (hfirst : layout.resolve first = some fd) {entries : List Entry}
    (hgenuine : ∀ e ∈ entries, Genuine layout e)
    (h : ∀ e ∈ entries, Passes (m.context fd).events e) :
    entries.foldlM (round layout first) m = .ok m := by
  induction entries with
  | nil => rfl
  | cons e entries ih =>
      obtain ⟨hgenuine, hgenuines⟩ := List.forall_mem_cons.mp hgenuine
      obtain ⟨hpass, hpasses⟩ := List.forall_mem_cons.mp h
      rw [List.foldlM_cons, round_passes hfirst hgenuine hpass]
      exact ih hgenuines hpasses

theorem tasks_ne_nil (hm : m.Waiting) {real : Events} (hhit : real.inter (m.context fd).events ≠ .none) :
    (m.context fd).tasks fd real ≠ [] := by
  intro hnil
  apply hhit
  rw [Events.eq_none_iff]
  rw [FdContext.tasks, List.append_eq_nil_iff] at hnil
  intro event
  have hempty : real.has event = true → (m.context fd).taskOf fd event = [] := by
    intro hreal
    cases event with
    | read => simpa [show real.read = true from hreal] using hnil.1
    | write => simpa [show real.write = true from hreal] using hnil.2
  cases hreal : real.has event with
  | false => cases event <;> simp_all [Events.inter, Events.has]
  | true =>
      have hnone : (m.context fd).getEventContext event = none := by
        simpa [FdContext.taskOf] using hempty hreal
      have hnot := hm fd event
      rw [hnone] at hnot
      cases event <;> simp_all [Events.inter, Events.has]

theorem fd_of_mem_tasks {real : Events} {x : Fd × Event × Task}
    (h : x ∈ (m.context fd).tasks fd real) : x.1 = fd := by
  have htask : ∀ event, x ∈ (m.context fd).taskOf fd event → x.1 = fd := by
    intro event hx
    obtain ⟨task, -, rfl⟩ := List.mem_map.mp hx
    rfl
  rw [FdContext.tasks, List.mem_append] at h
  rcases h with h | h
  · split at h
    · exact htask .read h
    · exact absurd h List.not_mem_nil
  · split at h
    · exact htask .write h
    · exact absurd h List.not_mem_nil

/-- Rounds that pass over every entry leave everything; otherwise, unless they crash, they submit
tasks of the first context. -/
theorem foldlM_submitted (hfirst : layout.resolve first = some fd) {entries : List Entry}
    (hgenuine : ∀ e ∈ entries, Genuine layout e) (hm : Seated fd m) {m' : Manager}
    (hrun : entries.foldlM (round layout first) m = .ok m') :
    ∃ fired, m'.submitted = m.submitted ++ fired ∧ (∀ x ∈ fired, x.1 = fd) ∧
      (fired = [] → ∀ e ∈ entries, Passes (m.context fd).events e) := by
  induction entries generalizing m with
  | nil =>
      cases hrun
      exact ⟨[], (List.append_nil _).symm, by simp, by simp⟩
  | cons e entries ih =>
      obtain ⟨hgenuine, hgenuines⟩ := List.forall_mem_cons.mp hgenuine
      rw [List.foldlM_cons] at hrun
      by_cases hpass : Passes (m.context fd).events e
      · rw [round_passes hfirst hgenuine hpass] at hrun
        obtain ⟨fired, hfired, hfd, hnil⟩ := ih hgenuines hm hrun
        exact ⟨fired, hfired, hfd, fun h => List.forall_mem_cons.mpr ⟨hpass, hnil h⟩⟩
      · rw [Passes, not_or] at hpass
        have hseen := mt hgenuine.dataFd_eq_iff.mp hpass.1
        rcases round_cases hfirst hm hseen hpass.2 with ⟨-, m₁, hround, htook⟩ | ⟨-, hcrash⟩
        · rw [hround] at hrun
          obtain ⟨fired, hfired, hfd, -⟩ := ih hgenuines (htook.seated hm.waiting) hrun
          refine ⟨(m.context fd).tasks fd (e.realEvent (m.context fd).events) ++ fired, ?_, ?_, ?_⟩
          · rw [hfired, htook.submitted, List.append_assoc]
          · intro x hx
            rcases List.mem_append.mp hx with hx | hx
            · exact fd_of_mem_tasks hx
            · exact hfd x hx
          · intro hnil
            exact absurd (List.append_eq_nil_iff.mp hnil).1 (tasks_ne_nil hm.waiting hpass.2)
        · rw [hcrash] at hrun
          cases hrun

theorem foldlM_pipes {entries : List Entry} (hgenuine : ∀ e ∈ entries, Genuine layout e)
    (h : ∀ e ∈ entries, e.source = .pipe) :
    entries.foldlM (round layout first) m = .ok m := by
  induction entries with
  | nil => rfl
  | cons e entries ih =>
      obtain ⟨hgenuine, hgenuines⟩ := List.forall_mem_cons.mp hgenuine
      obtain ⟨hpipe, hpipes⟩ := List.forall_mem_cons.mp h
      rw [List.foldlM_cons, round_pipe (hgenuine.dataFd_eq_iff.mpr hpipe)]
      exact ih hgenuines hpipes

/-- Without a context behind the first entry, any socket entry is fatal. -/
theorem foldlM_wild (hfirst : layout.resolve first = none) {entries : List Entry}
    (hgenuine : ∀ e ∈ entries, Genuine layout e) {m' : Manager}
    (hrun : entries.foldlM (round layout first) m = .ok m') :
    ∀ e ∈ entries, e.source = .pipe := by
  induction entries with
  | nil => simp
  | cons e entries ih =>
      obtain ⟨hgenuine, hgenuines⟩ := List.forall_mem_cons.mp hgenuine
      rw [List.foldlM_cons] at hrun
      by_cases hpipe : e.source = .pipe
      · rw [round_pipe (hgenuine.dataFd_eq_iff.mpr hpipe)] at hrun
        exact List.forall_mem_cons.mpr ⟨hpipe, ih hgenuines hrun⟩
      · rw [round_wild (mt hgenuine.dataFd_eq_iff.mp hpipe) hfirst] at hrun
        cases hrun

theorem Carries.genuine {batch : List Entry} (h : m.Carries layout batch) :
    ∀ e ∈ batch, Genuine layout e := by
  intro e he
  rw [Genuine]
  split
  · next hsource => exact h.pipe e he hsource
  · next fd hsource => exact (h.socket e he fd hsource).1

theorem fd_of_mem_due {x : Fd × Event × Task} (h : x ∈ m.due e) : e.source = .socket x.1 := by
  rw [due] at h
  split at h
  · exact absurd h List.not_mem_nil
  · next fd hsource => rw [hsource, fd_of_mem_tasks h]

/-- The rounds after the first, which has submitted what was due for its own entry. -/
theorem dispatches_rest_iff (hfirst : layout.resolve first = some fd) {rest : List Entry}
    (hgenuine : ∀ e ∈ rest, Genuine layout e) (hother : ∀ e ∈ rest, e.source ≠ .socket fd)
    {m₁ : Manager} (hm₁ : Seated fd m₁) {head : List (Fd × Event × Task)}
    (hhead : m₁.submitted = m.submitted ++ head) :
    (∃ m' fired, rest.foldlM (round layout first) m₁ = .ok m' ∧
      m'.submitted = m.submitted ++ fired ∧ fired.Perm (head ++ rest.flatMap m.due)) ↔
      ∀ e ∈ rest, m.due e = [] ∧ Passes (m₁.context fd).events e := by
  constructor
  · rintro ⟨m', fired, hrun, hfired, hperm⟩
    obtain ⟨later, hlater, hfd, hnil⟩ := foldlM_submitted hfirst hgenuine hm₁ hrun
    have hsplit : fired = head ++ later := by
      rw [hlater, hhead, List.append_assoc] at hfired
      exact (List.append_cancel_left hfired).symm
    have hrest : later.Perm (rest.flatMap m.due) :=
      (List.perm_append_left_iff head).mp (hsplit ▸ hperm)
    -- what the later rounds submit waits in the first context, what is due in the others
    have hempty : later = [] := by
      rw [List.eq_nil_iff_forall_not_mem]
      intro x hx
      obtain ⟨e', he', hdue⟩ := List.mem_flatMap.mp (hrest.mem_iff.mp hx)
      exact hother e' he' (hfd x hx ▸ fd_of_mem_due hdue)
    rw [hempty] at hrest
    have hdue := List.flatMap_eq_nil_iff.mp hrest.symm.eq_nil
    exact fun e' he' => ⟨hdue e' he', hnil hempty e' he'⟩
  · intro h
    refine ⟨m₁, head, foldlM_passes hfirst hgenuine fun e he => (h e he).2, hhead, ?_⟩
    rw [List.flatMap_eq_nil_iff.mpr fun e he => (h e he).1, List.append_nil]

theorem dispatches_iff_unmixed (layout : Layout) (m : Manager) (batch : List Entry)
    (hwaiting : m.Waiting) (hbatch : m.Carries layout batch) :
    m.Dispatches layout batch ↔ m.Unmixed batch := by
  cases batch with
  | nil => exact iff_of_true ⟨m, [], rfl, (List.append_nil _).symm, List.Perm.refl _⟩ trivial
  | cons e rest =>
      obtain ⟨hgenuine, hgenuines⟩ := List.forall_mem_cons.mp hbatch.genuine
      rw [Dispatches, dispatch_exact, Unmixed]
      cases hsource : e.source with
      | pipe =>
          have hfirst : layout.resolve e.event.data = none := by
            rw [hbatch.pipe e List.mem_cons_self hsource, layout.resolve_pipeData]
          constructor
          · rintro ⟨m', fired, hrun, -⟩
            exact (List.forall_mem_cons.mp (foldlM_wild hfirst hbatch.genuine hrun)).2
          · intro hpipes
            have hall : ∀ e' ∈ e :: rest, e'.source = .pipe :=
              List.forall_mem_cons.mpr ⟨hsource, hpipes⟩
            have hdue : (e :: rest).flatMap m.due = [] := by
              rw [List.flatMap_eq_nil_iff]
              intro e' he'
              rw [due, hall e' he']
            refine ⟨m, [], foldlM_pipes hbatch.genuine hall, (List.append_nil _).symm, ?_⟩
            rw [hdue]
      | socket fd =>
          obtain ⟨hdata, hin⟩ := hbatch.socket e List.mem_cons_self fd hsource
          have hfirst : layout.resolve e.event.data = some fd := by
            rw [hdata, layout.resolve_addr]
          have hother : ∀ e' ∈ rest, e'.source ≠ .socket fd := by
            intro e' he' hsame
            have hnodup := hbatch.distinct
            rw [List.map_cons, List.nodup_cons, hsource, ← hsame] at hnodup
            exact hnodup.1 (List.mem_map_of_mem he')
          have hm : Seated fd m := ⟨hwaiting, fun _ => hin⟩
          have hdue : m.due e = (m.context fd).tasks fd
              ((e.realEvent (m.context fd).events).inter (m.context fd).events) := by
            rw [due, hsource]
          simp only [List.foldlM_cons, List.flatMap_cons, hdue]
          by_cases hmiss : (e.realEvent (m.context fd).events).inter (m.context fd).events = .none
          · rw [round_skip hfirst hmiss, hmiss, Events.diff_eq_self hmiss]
            simp only [true_or, true_and]
            exact dispatches_rest_iff hfirst hgenuines hother hm (List.append_nil m.submitted).symm
          · have hseen : dataFd layout.host e.event.data ≠ layout.pipefd := by
              rw [hdata]
              exact layout.dataFd_addr fd
            rcases round_cases hfirst hm hseen hmiss with
              ⟨hsub, m₁, hround, htook⟩ | ⟨hsub, hcrash⟩
            · have hleft : (m₁.context fd).events
                  = (m.context fd).events.diff (e.realEvent (m.context fd).events) := by
                rw [htook.context, Function.update_self]
                rfl
              rw [hround, Events.inter_eq_self hsub, ← hleft]
              simp only [hsub, or_true, true_and]
              exact dispatches_rest_iff hfirst hgenuines hother (htook.seated hwaiting)
                htook.submitted
            · refine iff_of_false ?_ ?_
              · rintro ⟨m', fired, hrun, -⟩
                rw [hcrash] at hrun
                cases hrun
              · rintro ⟨hmiss' | hsub', -⟩
                · exact hmiss hmiss'
                · exact hsub hsub'

section Examples

/-- Two descriptors, 5 and 6, each with a fiber that waits to read. -/
def twoReaders : Manager :=
  { init with
    context := fun fd =>
      if fd = 5 then { events := .single .read, read := some (.fiber 1), write := none }
      else if fd = 6 then { events := .single .read, read := some (.fiber 2), write := none }
      else .fresh
    interest := fun fd =>
      if fd = 5 ∨ fd = 6 then
        some { events := (Events.single .read).edge, data := Layout.spaced.addr fd }
      else none }

def readable (fd : Fd) : Entry :=
  { source := .socket fd
    event := { events := ⟨true, false, false, false, false⟩, data := Layout.spaced.addr fd } }

/-- A byte in the pipe. -/
def notified : Entry :=
  { source := .pipe
    event := { events := ⟨true, false, false, false, false⟩, data := Layout.spaced.pipeData } }

theorem waiting_twoReaders : twoReaders.Waiting := by
  intro fd event
  rw [twoReaders]
  dsimp only
  split
  · cases event <;> rfl
  · split
    · cases event <;> rfl
    · cases event <;> rfl

/-- One descriptor that is ready, before the pipe. -/
theorem dispatches_iff_unmixed_pipe_last :
    twoReaders.Dispatches Layout.spaced [readable 5, notified] := by
  refine (dispatches_iff_unmixed Layout.spaced twoReaders _ waiting_twoReaders ?_).mpr ?_
  · refine ⟨?_, ?_, by decide⟩
    · intro e he hpipe
      rcases List.mem_pair.mp he with rfl | rfl
      · cases hpipe
      · rfl
    · intro e he fd hsocket
      rcases List.mem_pair.mp he with rfl | rfl
      · cases hsocket
        exact ⟨rfl, rfl⟩
      · cases hsocket
  · refine ⟨Or.inr rfl, ?_⟩
    intro e he
    rw [List.mem_singleton.mp he]
    exact ⟨rfl, Or.inl rfl⟩

/-- Both descriptors ready at once: the fiber that waits for the second is never submitted. -/
theorem not_dispatches_two_ready :
    ¬ twoReaders.Dispatches Layout.spaced [readable 5, readable 6] := by
  rintro ⟨m', fired, hrun, hfired, hperm⟩
  have hsubmitted :
      (twoReaders.dispatch Layout.spaced ([readable 5, readable 6].map Entry.exact)).map submitted = .ok [(5, .read, .fiber 1)] := by
    rfl
  rw [hrun] at hsubmitted
  have hlength := hperm.length_eq
  have hone : fired = [(5, .read, .fiber 1)] := by
    rw [← Except.ok.inj hsubmitted, hfired]
    rfl
  rw [hone] at hlength
  revert hlength
  decide

end Examples

end AsyncRPC.IOManager.Manager
