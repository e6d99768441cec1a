import AsyncRPC.Proof.HookedIO

/-!
# What a hooked call returns

The first answer that a blocking call would return, or a timeout that has run out, or that the event
could not be added.
-/

namespace AsyncRPC.HookedIO

open IOManager (Layout)

variable {layout : Layout} {f c : Nat}

section Answers

namespace Kind

variable {kind : Kind} {a : Answer}

theorem transient_of_interrupted (h : kind.interrupted a = true) : kind.transient a = true := by
  rw [transient, h]
  rfl

theorem transient_of_pending (h : kind.pending a = true) : kind.transient a = true := by
  rw [transient, h, Bool.or_true]

/-- Only `do_io` calls the original function again at once. -/
theorem io_of_interrupted (h : kind.interrupted a = true) : ∃ event, kind = .io event := by
  cases kind with
  | io event => exact ⟨event, rfl⟩
  | connect timeout => cases h

end Kind

namespace Call

variable {call : Call} {answers : List Answer} {a : Answer}

theorem tries_nil (call : Call) : call.Tries [] :=
  ⟨fun _ h => absurd h List.not_mem_nil, fun h => absurd rfl h⟩

theorem Tries.append (h : call.Tries answers) (ha : call.kind.transient a = true)
    (hkind : ∃ event, call.kind = .io event) : call.Tries (answers ++ [a]) := by
  refine ⟨fun b hb => ?_, fun _ => hkind⟩
  rcases List.mem_append.mp hb with hold | hnew
  · exact h.1 b hold
  · rw [List.mem_singleton.mp hnew]
    exact ha

theorem Waits.tries (h : call.Waits answers) (hkind : ∃ event, call.kind = .io event) :
    call.Tries answers := by
  obtain ⟨before, a, rfl, htries, ha⟩ := h
  exact htries.append (Kind.transient_of_pending ha) hkind

end Call

/-- What the answers so far say, wherever a fiber is in its call. -/
def Progress (s : State) : Pc → Prop
  | .outside => True
  | .direct c => (s.call c).hooked = false ∧ s.answers c = []
  | .calling c => (s.call c).hooked = true ∧ (s.call c).Tries (s.answers c)
  | .arming c | .adding c _ | .refused c _ | .waiting c _ | .resumed c _ | .checking c =>
      (s.call c).hooked = true ∧ (s.call c).Waits (s.answers c)
  | .finishing c => (s.call c).hooked = true ∧ (s.call c).Waits (s.answers c) ∧
      ∃ timeout, (s.call c).kind = .connect timeout

theorem Progress.congr {s t : State} {pc : Pc} (h : Progress s pc)
    (hcall : ∀ c, pc.call = some c → t.call c = s.call c)
    (hanswers : ∀ c, pc.call = some c → t.answers c = s.answers c) : Progress t pc := by
  cases pc with
  | outside => trivial
  | _ =>
      rw [Progress, hcall _ rfl, hanswers _ rfl]
      exact h

/-- The answers explain where the fibers are and what the calls have returned. -/
structure Answered (s : State) : Prop where
  progress : ∀ f, Progress s (s.pc f)
  unused : ∀ c, s.made ≤ c → s.answers c = []
  returned : ∀ c outcome, (c, outcome) ∈ s.returned →
    c < s.made ∧ (s.call c).Explains (s.answers c) outcome ∧ ∀ f, (s.pc f).call ≠ some c
  once : (s.returned.map Prod.fst).Nodup
  condition : ∀ c errno, s.condition c = some errno → errno = 0 ∨ errno = etimedout

namespace Answered

variable {s t : State}

theorem init (h : New s) : Answered s where
  progress := by
    intro f
    rw [h.pc]
    trivial
  unused := fun c _ => h.answers c
  returned := by
    intro c outcome hin
    rw [h.returned] at hin
    cases hin
  once := by
    rw [h.returned]
    exact List.nodup_nil
  condition := by
    intro c errno hc
    rw [h.condition] at hc
    cases hc

/-- No fiber has gone on. -/
theorem still (h : Answered s) (hpc : t.pc = s.pc) (hcall : t.call = s.call) (hmade : t.made = s.made)
    (hanswers : t.answers = s.answers) (hreturned : t.returned = s.returned)
    (hcondition : ∀ c errno, t.condition c = some errno → errno = 0 ∨ errno = etimedout) :
    Answered t where
  progress := by
    intro f
    rw [hpc]
    exact (h.progress f).congr (fun c _ => congrFun hcall c) fun c _ => congrFun hanswers c
  unused := by
    rw [hmade, hanswers]
    exact h.unused
  returned := by
    rw [hpc, hcall, hmade, hanswers, hreturned]
    exact h.returned
  once := hreturned ▸ h.once
  condition := hcondition

/-- What another fiber's call has to do with it: nothing. -/
theorem progress_of_ne (h : Answered s) (hinv : Inv s) {pc : Pc} (hown : (s.pc f).call = some c)
    (hpc : t.pc = Function.update s.pc f pc) (hcall : t.call = s.call)
    (hanswers : ∀ c', c' ≠ c → t.answers c' = s.answers c') {g : Nat} (hg : g ≠ f) :
    Progress t (t.pc g) := by
  rw [hpc, Function.update_of_ne hg]
  refine (h.progress g).congr (fun c' _ => congrFun hcall c') fun c' hc' => hanswers c' ?_
  rintro rfl
  exact hg ((hinv.own g c' hc').2.1.symm.trans (hinv.own f c' hown).2.1)

/-- A fiber goes on in its call. -/
theorem move (h : Answered s) (hinv : Inv s) {pc : Pc} (hown : (s.pc f).call = some c)
    (hpc : t.pc = Function.update s.pc f pc) (hsame : pc.call = some c) (hprogress : Progress t pc)
    (hcall : t.call = s.call) (hmade : t.made = s.made)
    (hanswers : ∀ c', c' ≠ c → t.answers c' = s.answers c') (hreturned : t.returned = s.returned)
    (hcondition : t.condition = s.condition) : Answered t where
  progress := by
    intro g
    by_cases hg : g = f
    · rw [hg, hpc, Function.update_self]
      exact hprogress
    · exact h.progress_of_ne hinv hown hpc hcall hanswers hg
  unused := by
    intro c' hc'
    rw [hmade] at hc'
    rw [hanswers c' ((hinv.own f c hown).1.trans_le hc').ne']
    exact h.unused c' hc'
  returned := by
    intro c' outcome hin
    rw [hreturned] at hin
    obtain ⟨hlt, hexplains, hout⟩ := h.returned c' outcome hin
    have hne : c' ≠ c := by
      rintro rfl
      exact hout f hown
    rw [hmade, hcall, hanswers c' hne]
    refine ⟨hlt, hexplains, fun g => ?_⟩
    by_cases hg : g = f
    · rw [hg, hpc, Function.update_self, hsame]
      exact fun heq => hne (Option.some.inj heq).symm
    · rw [hpc, Function.update_of_ne hg]
      exact hout g
  once := hreturned ▸ h.once
  condition := by
    rw [hcondition]
    exact h.condition

/-- A fiber leaves its call with what the answers explain. -/
theorem finish (h : Answered s) (hinv : Inv s) {outcome : Outcome} (hown : (s.pc f).call = some c)
    (hpc : t.pc = Function.update s.pc f .outside) (hcall : t.call = s.call) (hmade : t.made = s.made)
    (hanswers : ∀ c', c' ≠ c → t.answers c' = s.answers c')
    (hreturned : t.returned = s.returned ++ [(c, outcome)])
    (hexplains : (s.call c).Explains (t.answers c) outcome)
    (hcondition : t.condition = s.condition) : Answered t where
  progress := by
    intro g
    by_cases hg : g = f
    · rw [hg, hpc, Function.update_self]
      trivial
    · exact h.progress_of_ne hinv hown hpc hcall hanswers hg
  unused := by
    intro c' hc'
    rw [hmade] at hc'
    rw [hanswers c' ((hinv.own f c hown).1.trans_le hc').ne']
    exact h.unused c' hc'
  returned := by
    have hout : ∀ g, (t.pc g).call ≠ some c := by
      intro g
      by_cases hg : g = f
      · rw [hg, hpc, Function.update_self]
        exact fun heq => by cases heq
      · rw [hpc, Function.update_of_ne hg]
        intro hc
        exact hg ((hinv.own g c hc).2.1.symm.trans (hinv.own f c hown).2.1)
    intro c' outcome' hin
    rw [hreturned] at hin
    rcases List.mem_append.mp hin with hold | hnew
    · obtain ⟨hlt, hexplains', hout'⟩ := h.returned c' outcome' hold
      have hne : c' ≠ c := by
        rintro rfl
        exact hout' f hown
      rw [hmade, hcall, hanswers c' hne]
      refine ⟨hlt, hexplains', fun g => ?_⟩
      by_cases hg : g = f
      · rw [hg, hpc, Function.update_self]
        exact fun heq => by cases heq
      · rw [hpc, Function.update_of_ne hg]
        exact hout' g
    · cases List.mem_singleton.mp hnew
      rw [hmade, hcall]
      exact ⟨(hinv.own f c hown).1, hexplains, hout⟩
  once := by
    rw [hreturned, List.map_append, List.map_singleton, ← List.concat_eq_append, List.nodup_concat]
    refine ⟨?_, h.once⟩
    intro hin
    obtain ⟨⟨c', outcome'⟩, hin', rfl⟩ := List.mem_map.mp hin
    exact (h.returned c' outcome' hin').2.2 f hown
  condition := by
    rw [hcondition]
    exact h.condition

/-- A call is made, whose number nothing knows yet. -/
theorem began (h : Answered s) (hinv : Inv s) {call : Call} {pc : Pc}
    (hpc : t.pc = Function.update s.pc f pc) (hsame : ∀ c, pc.call = some c → c = s.made)
    (hprogress : Progress t pc) (hcall : t.call = Function.update s.call s.made call)
    (hmade : t.made = s.made + 1) (hanswers : t.answers = s.answers)
    (hreturned : t.returned = s.returned)
    (hcondition : ∀ c errno, t.condition c = some errno → errno = 0 ∨ errno = etimedout) :
    Answered t where
  progress := by
    intro g
    by_cases hg : g = f
    · rw [hg, hpc, Function.update_self]
      exact hprogress
    · rw [hpc, Function.update_of_ne hg]
      refine (h.progress g).congr (fun c hc => ?_) fun c _ => congrFun hanswers c
      rw [hcall, Function.update_of_ne (hinv.own g c hc).1.ne]
  unused := by
    intro c hc
    rw [hmade] at hc
    rw [hanswers]
    exact h.unused c (Nat.le_of_succ_le hc)
  returned := by
    intro c outcome hin
    rw [hreturned] at hin
    obtain ⟨hlt, hexplains, hout'⟩ := h.returned c outcome hin
    rw [hmade, hcall, hanswers, Function.update_of_ne hlt.ne]
    refine ⟨hlt.trans (Nat.lt_succ_self _), hexplains, fun g => ?_⟩
    by_cases hg : g = f
    · rw [hg, hpc, Function.update_self]
      exact fun heq => hlt.ne (hsame c heq)
    · rw [hpc, Function.update_of_ne hg]
      exact hout' g
  once := hreturned ▸ h.once
  condition := hcondition

/-- `EBADF`: a call is made and has returned. -/
theorem rejected (h : Answered s) (hinv : Inv s) {call : Call} (hhooked : call.hooked = false)
    (hpc : t.pc = s.pc) (hcall : t.call = Function.update s.call s.made call)
    (hmade : t.made = s.made + 1) (hanswers : t.answers = s.answers)
    (hreturned : t.returned = s.returned ++ [(s.made, .closed)])
    (hcondition : t.condition = s.condition) : Answered t where
  progress := by
    intro g
    rw [hpc]
    refine (h.progress g).congr (fun c hc => ?_) fun c _ => congrFun hanswers c
    rw [hcall, Function.update_of_ne (hinv.own g c hc).1.ne]
  unused := by
    intro c hc
    rw [hmade] at hc
    rw [hanswers]
    exact h.unused c (Nat.le_of_succ_le hc)
  returned := by
    intro c outcome hin
    rw [hreturned] at hin
    rw [hmade, hcall, hanswers, hpc]
    rcases List.mem_append.mp hin with hold | hnew
    · obtain ⟨hlt, hexplains, hout⟩ := h.returned c outcome hold
      rw [Function.update_of_ne hlt.ne]
      exact ⟨hlt.trans (Nat.lt_succ_self _), hexplains, hout⟩
    · cases List.mem_singleton.mp hnew
      rw [Function.update_self]
      refine ⟨Nat.lt_succ_self _, ⟨hhooked, h.unused s.made le_rfl⟩, fun g hg => ?_⟩
      exact (hinv.own g s.made hg).1.false
  once := by
    rw [hreturned, List.map_append, List.map_singleton, ← List.concat_eq_append, List.nodup_concat]
    refine ⟨fun hin => ?_, h.once⟩
    obtain ⟨⟨c, outcome⟩, hin', heq⟩ := List.mem_map.mp hin
    exact (h.returned c outcome hin').1.ne heq
  condition := by
    rw [hcondition]
    exact h.condition

theorem record_self (s : State) (c : Nat) (a : Answer) :
    (s.record c a).answers c = s.answers c ++ [a] :=
  Function.update_self c _ _

theorem record_of_ne (s : State) (a : Answer) {c' : Nat} (h : c' ≠ c) :
    (s.record c a).answers c' = s.answers c' :=
  Function.update_of_ne h _ _

/-- **The step lemma.** -/
theorem step (h : Answered s) (hinv : Inv s) {l : Label} (hdoes : Does layout s l t) : Answered t := by
  cases hdoes with
  | closed hpc hgate => exact h.rejected hinv rfl rfl rfl rfl rfl rfl rfl
  | @direct f fd kind enabled fdctx hpc hgate =>
      have hself : (s.start f fd kind .direct).call s.made = ⟨f, fd, kind, forever, false⟩ :=
        Function.update_self s.made _ _
      refine h.began hinv rfl ?_ ?_ rfl rfl rfl rfl h.condition
      · rintro c ⟨⟩
        rfl
      · exact ⟨congrArg Call.hooked hself, h.unused s.made le_rfl⟩
  | @hooked f fd kind enabled fdctx timeout hpc hgate =>
      have hself : (s.start f fd kind (.waits timeout)).call s.made = ⟨f, fd, kind, timeout, true⟩ :=
        Function.update_self s.made _ _
      refine h.began hinv rfl ?_ ?_ rfl rfl rfl rfl ?_
      · rintro c ⟨⟩
        rfl
      · refine ⟨congrArg Call.hooked hself, ?_⟩
        have hnone : s.answers s.made = [] := h.unused s.made le_rfl
        exact hnone ▸ Call.tries_nil _
      · intro c errno hc
        by_cases hne : c = s.made
        · subst hne
          exact Or.inl (Option.some.inj ((Function.update_self s.made _ _).symm.trans hc)).symm
        · exact h.condition c errno ((Function.update_of_ne hne _ _).symm.trans hc)
  | @passed f a c hpc =>
      obtain ⟨hdirect, hnone⟩ : (s.call c).hooked = false ∧ s.answers c = [] := by
        have hprogress := h.progress f
        rw [hpc] at hprogress
        exact hprogress
      refine h.finish hinv (by rw [hpc]; rfl) rfl rfl rfl (fun _ => record_of_ne s a) rfl ?_ rfl
      rw [Call.Explains, hdirect, if_neg Bool.false_ne_true]
      exact (record_self s c a).trans (by rw [hnone]; rfl)
  | @interrupted f a c hpc ha =>
      obtain ⟨hhooked, htries⟩ : (s.call c).hooked = true ∧ (s.call c).Tries (s.answers c) := by
        have hprogress := h.progress f
        rw [hpc] at hprogress
        exact hprogress
      have hstays : (s.record c a).pc = Function.update s.pc f (.calling c) :=
        (Function.update_eq_self_iff.mpr hpc.symm).symm
      have hprogress : Progress (s.record c a) (.calling c) := by
        refine ⟨hhooked, ?_⟩
        rw [record_self]
        exact htries.append (Kind.transient_of_interrupted ha) (Kind.io_of_interrupted ha)
      exact h.move hinv (by rw [hpc]; rfl) hstays rfl hprogress rfl rfl (fun _ => record_of_ne s a) rfl
        rfl
  | @pending f a c hpc hno ha =>
      obtain ⟨hhooked, htries⟩ : (s.call c).hooked = true ∧ (s.call c).Tries (s.answers c) := by
        have hprogress := h.progress f
        rw [hpc] at hprogress
        exact hprogress
      exact h.move hinv (by rw [hpc]; rfl) rfl rfl
        ⟨hhooked, s.answers c, a, record_self s c a, htries, ha⟩ rfl rfl (fun _ => record_of_ne s a)
        rfl rfl
  | @answered f a c hpc ha =>
      obtain ⟨hhooked, htries⟩ : (s.call c).hooked = true ∧ (s.call c).Tries (s.answers c) := by
        have hprogress := h.progress f
        rw [hpc] at hprogress
        exact hprogress
      refine h.finish hinv (by rw [hpc]; rfl) rfl rfl rfl (fun _ => record_of_ne s a) rfl ?_ rfl
      rw [Call.Explains, hhooked, if_pos rfl]
      exact ⟨s.answers c, record_self s c a, htries, ha⟩
  | @unarmed f ptr now c hpc hforever =>
      have hprogress := h.progress f
      rw [hpc] at hprogress
      exact h.move hinv (by rw [hpc]; rfl) rfl rfl hprogress rfl rfl (fun _ _ => rfl) rfl rfl
  | @armed f ptr now c timers hpc hlong hrun =>
      have hprogress := h.progress f
      rw [hpc] at hprogress
      exact h.move hinv (by rw [hpc]; rfl) rfl rfl hprogress rfl rfl (fun _ _ => rfl) rfl rfl
  | @added f ctl c timer table hpc hrun =>
      have hprogress := h.progress f
      rw [hpc] at hprogress
      exact h.move hinv (by rw [hpc]; rfl) rfl rfl hprogress rfl rfl (fun _ _ => rfl) rfl rfl
  | @refused f ctl c timer table hpc hrun =>
      have hprogress := h.progress f
      rw [hpc] at hprogress
      exact h.move hinv (by rw [hpc]; rfl) rfl rfl hprogress rfl rfl (fun _ _ => rfl) rfl rfl
  | @notAdded f c timer s' hpc hcancel =>
      obtain ⟨timers, rfl, -⟩ := Inv.cancelTimer_eq_some hcancel
      have hprogress := h.progress f
      rw [hpc] at hprogress
      exact h.finish hinv (by rw [hpc]; rfl) rfl rfl rfl (fun _ _ => rfl) rfl hprogress rfl
  | @resumed f c timer hpc hany =>
      have hprogress := h.progress f
      rw [hpc] at hprogress
      exact h.move hinv (by rw [hpc]; rfl) rfl rfl hprogress rfl rfl (fun _ _ => rfl) rfl rfl
  | @disarmed f c timer s' hpc hcancel =>
      obtain ⟨timers, rfl, -⟩ := Inv.cancelTimer_eq_some hcancel
      have hprogress := h.progress f
      rw [hpc] at hprogress
      exact h.move hinv (by rw [hpc]; rfl) rfl rfl hprogress rfl rfl (fun _ _ => rfl) rfl rfl
  | @retried f c event hpc hcondition hkind =>
      obtain ⟨hhooked, hwaits⟩ : (s.call c).hooked = true ∧ (s.call c).Waits (s.answers c) := by
        have hprogress := h.progress f
        rw [hpc] at hprogress
        exact hprogress
      exact h.move hinv (by rw [hpc]; rfl) rfl rfl ⟨hhooked, hwaits.tries ⟨event, hkind⟩⟩ rfl rfl
        (fun _ _ => rfl) rfl rfl
  | @connected f c timeout hpc hcondition hkind =>
      obtain ⟨hhooked, hwaits⟩ : (s.call c).hooked = true ∧ (s.call c).Waits (s.answers c) := by
        have hprogress := h.progress f
        rw [hpc] at hprogress
        exact hprogress
      exact h.move hinv (by rw [hpc]; rfl) rfl rfl ⟨hhooked, hwaits, timeout, hkind⟩ rfl rfl
        (fun _ _ => rfl) rfl rfl
  | @timedOut f c errno hpc hcondition hset =>
      have hprogress := h.progress f
      rw [hpc] at hprogress
      have herrno : errno = etimedout := (h.condition c errno hcondition).resolve_left hset
      exact h.finish hinv (by rw [hpc]; rfl) rfl rfl rfl (fun _ _ => rfl) rfl ⟨herrno, hprogress⟩ rfl
  | @soError f c error hpc =>
      have hprogress := h.progress f
      rw [hpc] at hprogress
      exact h.finish hinv (by rw [hpc]; rfl) rfl rfl rfl (fun _ _ => rfl) rfl hprogress rfl
  | expired hrun => exact h.still rfl rfl rfl rfl rfl h.condition
  | dispatched hrun => exact h.still rfl rfl rfl rfl rfl h.condition
  | dead hin => exact h.still rfl rfl rfl rfl rfl h.condition
  | fired hin hcaptured hlocks hcondition => exact h.still rfl rfl rfl rfl rfl h.condition
  | @written c hin =>
      refine h.still rfl rfl rfl rfl rfl fun c' errno hc' => ?_
      by_cases hne : c' = c
      · subst hne
        exact Or.inr (Option.some.inj ((Function.update_self c' _ _).symm.trans hc')).symm
      · exact h.condition c' errno ((Function.update_of_ne hne _ _).symm.trans hc')
  | cancelled hin hrun => exact h.still rfl rfl rfl rfl rfl h.condition
  | deleted hrun => exact h.still rfl rfl rfl rfl rfl h.condition
  | table hrun hkept => exact h.still rfl rfl rfl rfl rfl h.condition
  | timers hrun => exact h.still rfl rfl rfl rfl rfl h.condition

end Answered

theorem answered_of_reached {s : State} (h : Reached layout s) : Inv s ∧ Answered s := by
  apply Transition.Reachable.invariant (fun _ hnew => ⟨Inv.init hnew, Answered.init hnew⟩) _ h
  rintro s l t ⟨hinv, hanswered⟩ ⟨hpossible, hstep⟩
  have hdoes := does_of_step hstep
  exact ⟨hinv.step hpossible hdoes, hanswered.step hinv hdoes⟩

/-- **A hooked call returns what a blocking call would**, or that its wait has failed. -/
theorem returns_of_reached {s : State} (h : Reached layout s) : s.Returns where
  once := (answered_of_reached h).2.once
  explained := fun c outcome hin => ((answered_of_reached h).2.returned c outcome hin).2.1

theorem returned_readsInVain : ∃ s, Reached IOManager.Layout.spaced s ∧
    s.returned = [(0, .timedOut etimedout)] := by
  have hreturned : (readsInVain.foldlM next fresh).map State.returned
      = some [(0, .timedOut etimedout)] := by decide +kernel
  obtain ⟨s, hrun, hreads⟩ := exists_of_script hreturned
  exact ⟨s, reached_of_script hrun, hreads⟩

/-- The read that has timed out. -/
theorem returns_of_reached_readsInVain : ∃ s : State, s.returned = [(0, .timedOut etimedout)] ∧
    s.Returns := by
  obtain ⟨s, hs, hreads⟩ := returned_readsInVain
  exact ⟨s, hreads, returns_of_reached hs⟩

end Answers

end AsyncRPC.HookedIO
