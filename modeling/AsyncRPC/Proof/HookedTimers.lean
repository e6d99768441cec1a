import AsyncRPC.Proof.Durations
import AsyncRPC.Proof.HookedResults
import AsyncRPC.Proof.TimerFrames

/-!
# The timers of hooked calls

Each call has one timer in the set at most, and none once it has returned; and no call ends with a
timeout before it has run out.
-/

namespace AsyncRPC

open Word

namespace HookedIO

open IOManager (Layout)

variable {layout : Layout} {f : Nat}

theorem State.Expired.mono {s t : State} {c : Nat} (h : s.Expired c)
    (hcaptured : ∀ id, s.captured id = some c → t.captured id = some c ∧ t.since id = s.since id)
    (hlog : ∀ e ∈ s.timers.log, e ∈ t.timers.log) (hcall : t.call c = s.call c) : t.Expired c := by
  obtain ⟨id, curr, next, hid, hcollected, hdue⟩ := h
  obtain ⟨hid', hsince⟩ := hcaptured id hid
  refine ⟨id, curr, next, hid', hlog _ hcollected, ?_⟩
  rw [hcall, hsince]
  exact hdue

/-- The timers in the set, those collected and the conditions they set agree with the calls. -/
structure Timed (s : State) : Prop where
  timers : TimerHistory.Inv s.timers
  captured : ∀ id c, s.captured id = some c → id < s.timers.manager.made ∧ c < s.made ∧
    (s.timers.manager.objects id).recurring = false ∧
    (s.timers.manager.objects id).next = addSize (s.since id) (s.call c).timeout
  armed : ∀ id c, s.captured id = some c → id ∈ s.timers.manager.timers →
    ∃ f, (s.pc f).call = some c ∧ (s.pc f).timer = some id
  mine : ∀ f id, (s.pc f).timer = some id →
    ∃ c, (s.pc f).call = some c ∧ s.captured id = some c
  made : ∀ id ∈ s.callbacks, id < s.timers.manager.made
  callbacks : ∀ id ∈ s.callbacks, ∀ c, s.captured id = some c → s.Expired c
  writing : ∀ c ∈ s.writing, s.Expired c
  condition : ∀ c errno, s.condition c = some errno → errno ≠ 0 → s.Expired c
  punctual : s.Punctual

namespace Timed

variable {s t : State}

theorem init (h : New s) : Timed s where
  timers := by
    rw [h.timers]
    exact TimerHistory.inv_init
  captured := by
    intro id c hid
    rw [h.captured] at hid
    cases hid
  armed := by
    intro id c hid
    rw [h.captured] at hid
    cases hid
  mine := by
    intro f id hid
    rw [h.pc] at hid
    cases hid
  made := by
    intro id hid
    rw [h.callbacks] at hid
    cases hid
  callbacks := by
    intro id hid
    rw [h.callbacks] at hid
    cases hid
  writing := by
    intro c hc
    rw [h.writing] at hc
    cases hc
  condition := by
    intro c errno hc
    rw [h.condition] at hc
    cases hc
  punctual := by
    intro c errno hin
    rw [h.returned] at hin
    cases hin

/-- The timers are left alone. -/
theorem keep (h : Timed s) (htimers : t.timers = s.timers) (hcaptured : t.captured = s.captured)
    (hsince : t.since = s.since) (hmade : s.made ≤ t.made) (hcall : ∀ c < s.made, t.call c = s.call c)
    (hholds : ∀ f c id, (s.pc f).call = some c → (s.pc f).timer = some id →
      id ∈ s.timers.manager.timers → (t.pc f).call = some c ∧ (t.pc f).timer = some id)
    (hmine : ∀ f id, (t.pc f).timer = some id → ∃ c, (t.pc f).call = some c ∧ s.captured id = some c)
    (hcallbacks : ∀ id ∈ t.callbacks, id ∈ s.callbacks) (hwriting : ∀ c ∈ t.writing, s.Expired c)
    (hcondition : ∀ c errno, t.condition c = some errno → errno ≠ 0 → s.Expired c)
    (hreturned : ∀ c errno, (c, .timedOut errno) ∈ t.returned → s.Expired c) : Timed t := by
  have hexpired : ∀ c, s.Expired c → t.Expired c := by
    intro c hc
    have hlt : c < s.made := by
      obtain ⟨id, -, -, hid, -⟩ := hc
      exact (h.captured id c hid).2.1
    refine hc.mono (fun id hid => ?_) (fun e he => ?_) (hcall c hlt)
    · rw [hcaptured, hsince]
      exact ⟨hid, rfl⟩
    · rw [htimers]
      exact he
  constructor
  · rw [htimers]
    exact h.timers
  · intro id c hid
    rw [hcaptured] at hid
    obtain ⟨hlt, hc, hrest⟩ := h.captured id c hid
    rw [htimers, hsince, hcall c hc]
    exact ⟨hlt, hc.trans_le hmade, hrest⟩
  · intro id c hid hin
    rw [hcaptured] at hid
    rw [htimers] at hin
    obtain ⟨g, hg, htimer⟩ := h.armed id c hid hin
    exact ⟨g, hholds g c id hg htimer hin⟩
  · rw [hcaptured]
    exact hmine
  · intro id hid
    rw [htimers]
    exact h.made id (hcallbacks id hid)
  · intro id hid c hc
    rw [hcaptured] at hc
    exact hexpired c (h.callbacks id (hcallbacks id hid) c hc)
  · exact fun c hc => hexpired c (hwriting c hc)
  · exact fun c errno hc hne => hexpired c (hcondition c errno hc hne)
  · exact fun c errno hin => hexpired c (hreturned c errno hin)

/-- A fiber goes on with the timer it has, or has none left to cancel. -/
theorem move (h : Timed s) {pc : Pc} (hpc : t.pc = Function.update s.pc f pc)
    (hown : pc.call = (s.pc f).call ∧ pc.timer = (s.pc f).timer ∨
      pc.timer = none ∧ ∀ id, (s.pc f).timer = some id → id ∉ s.timers.manager.timers)
    (htimers : t.timers = s.timers) (hcaptured : t.captured = s.captured) (hsince : t.since = s.since)
    (hmade : s.made ≤ t.made) (hcall : ∀ c < s.made, t.call c = s.call c)
    (hcallbacks : t.callbacks = s.callbacks) (hwriting : t.writing = s.writing)
    (hcondition : ∀ c errno, t.condition c = some errno → errno ≠ 0 → s.Expired c)
    (hreturned : ∀ c errno, (c, .timedOut errno) ∈ t.returned → s.Expired c) : Timed t := by
  refine h.keep htimers hcaptured hsince hmade hcall (fun g c id hg htimer hin => ?_)
    (fun g id htimer => ?_) (fun id hid => hcallbacks ▸ hid)
    (fun c hc => h.writing c (hwriting ▸ hc)) hcondition hreturned
  · by_cases hgf : g = f
    · subst hgf
      rw [hpc, Function.update_self]
      rcases hown with ⟨hc, hid⟩ | ⟨-, hgone⟩
      · rw [hc, hid]
        exact ⟨hg, htimer⟩
      · exact absurd hin (hgone id htimer)
    · rw [hpc, Function.update_of_ne hgf]
      exact ⟨hg, htimer⟩
  · by_cases hgf : g = f
    · subst hgf
      rw [hpc, Function.update_self] at htimer ⊢
      rcases hown with ⟨hc, hid⟩ | ⟨hnone, -⟩
      · rw [hc]
        rw [hid] at htimer
        exact h.mine g id htimer
      · rw [hnone] at htimer
        cases htimer
    · rw [hpc, Function.update_of_ne hgf] at htimer ⊢
      exact h.mine g id htimer

/-- A call on the timers: of somebody else on his own, of a hooked call that cancels its timer, or of
`Wait`, which then has the collected callbacks submitted. -/
theorem perform (h : Timed s) {call : TimerCall} (hpossible : s.timers.Possible call)
    (hrun : s.timers.perform call = .ok t.timers)
    (hon : ∀ id ∈ KeepAlive.on call, (∃ c, s.captured id = some c) → call = .cancel id)
    (hcaptured : t.captured = s.captured) (hsince : t.since = s.since) (hmade : t.made = s.made)
    (hcall : t.call = s.call) (hpc : t.pc = s.pc) (hwriting : t.writing = s.writing)
    (hcondition : t.condition = s.condition) (hreturned : t.returned = s.returned)
    (hcallbacks : ∀ id ∈ t.callbacks, id ∈ s.callbacks ∨
      ∃ curr, .collected id curr (s.timers.manager.objects id).next ∈ t.timers.log) : Timed t := by
  obtain ⟨hinv, hfollows, ⟨new, hlog⟩, hnext⟩ := h.timers.performs hpossible hrun
  have hexpired : ∀ c, s.Expired c → t.Expired c := by
    intro c hc
    refine hc.mono (fun id hid => ?_) (fun e he => ?_) (congrFun hcall c)
    · rw [hcaptured, hsince]
      exact ⟨hid, rfl⟩
    · rw [hlog]
      exact List.mem_append_left new he
  constructor
  · exact hinv
  · intro id c hid
    rw [hcaptured] at hid
    obtain ⟨hlt, hc, honce, hdeadline⟩ := h.captured id c hid
    rw [hmade, hsince, hcall, hnext id hlt (fun hin => hon id hin ⟨c, hid⟩) honce,
      hfollows.recurring_eq id hlt]
    exact ⟨hlt.trans_le hfollows.made_le, hc, honce, hdeadline⟩
  · intro id c hid hin
    rw [hcaptured] at hid
    rw [hpc]
    have hlt := (h.captured id c hid).1
    refine h.armed id c hid ((h.timers.sound.armed id).mp ?_)
    rw [Option.isSome_iff_ne_none]
    intro hnone
    have hsome := (hinv.sound.armed id).mpr hin
    rw [hfollows.callback_none id hlt hnone] at hsome
    cases hsome
  · intro f id htimer
    rw [hpc] at htimer ⊢
    rw [hcaptured]
    exact h.mine f id htimer
  · intro id hid
    rcases hcallbacks id hid with hold | ⟨curr, hcollected⟩
    · exact (h.made id hold).trans_le hfollows.made_le
    · exact hinv.recorded.made _ hcollected id (Or.inr rfl)
  · intro id hid c hc
    rw [hcaptured] at hc
    rcases hcallbacks id hid with hold | ⟨curr, hcollected⟩
    · exact hexpired c (h.callbacks id hold c hc)
    · refine ⟨id, curr, _, hcaptured ▸ hc, hcollected, ?_⟩
      rw [hsince, hcall]
      intro hfits
      rw [← Word.addSize_of_lt hfits, ← (h.captured id c hc).2.2.2]
      exact hinv.sound.due id curr _ hcollected
  · rw [hwriting]
    exact fun c hc => hexpired c (h.writing c hc)
  · rw [hcondition]
    exact fun c errno hc hne => hexpired c (h.condition c errno hc hne)
  · intro c errno hin
    rw [hreturned] at hin
    exact hexpired c (h.punctual c errno hin)

/-- A timer that is cancelled is in the set no more. -/
theorem cancelTimer (h : Timed s) {timer : Option Nat} (htimer : (s.pc f).timer = timer)
    (hcancel : s.cancelTimer timer = some t) :
    Timed t ∧ ∀ id, timer = some id → id ∉ t.timers.manager.timers := by
  obtain ⟨timers, rfl, hnone, hsome⟩ := Inv.cancelTimer_eq_some hcancel
  cases timer with
  | none =>
      obtain rfl := hnone rfl
      exact ⟨h, fun id hid => by cases hid⟩
  | some id =>
      have hrun := hsome id rfl
      obtain ⟨c, -, hid⟩ := h.mine f id htimer
      have hpossible : s.timers.Possible (.cancel id) := (h.captured id c hid).1
      have htimed : Timed { s with timers := timers } := by
        refine h.perform hpossible hrun (fun other hother _ => ?_) rfl rfl rfl rfl rfl rfl rfl rfl
          fun other hin => Or.inl hin
        cases hother
        rfl
      refine ⟨htimed, fun other hother hin => ?_⟩
      cases hother
      obtain ⟨answer, hmanager, -⟩ := TimerHistory.perform_cancel_eq_ok hrun
      have harmed := (htimed.timers.sound.armed id).mpr hin
      rw [(TimerManager.cancel_callback hmanager).1] at harmed
      cases harmed

/-- A call gets a new timer. -/
theorem arm (h : Timed s) (hinv : Inv s) {c ptr now : Nat} (hpc : s.pc f = .arming c)
    (hunused : s.timers.Unused ptr)
    (hrun : s.timers.perform (.addTimer ptr now (s.call c).timeout (some 0) false) = .ok t.timers)
    (hpc' : t.pc = Function.update s.pc f (.adding c (some s.timers.manager.made)))
    (hcaptured : t.captured = Function.update s.captured s.timers.manager.made (some c))
    (hsince : t.since = Function.update s.since s.timers.manager.made now) (hmade : t.made = s.made)
    (hcall : t.call = s.call) (hcallbacks : t.callbacks = s.callbacks)
    (hwriting : t.writing = s.writing) (hcondition : t.condition = s.condition)
    (hreturned : t.returned = s.returned) : Timed t := by
  have hpossible : s.timers.Possible (.addTimer ptr now (s.call c).timeout (some 0) false) :=
    ⟨hunused, rfl⟩
  have hu : Timed { s with timers := t.timers } :=
    h.perform hpossible hrun (fun id hid _ => by cases hid) rfl rfl rfl rfl rfl rfl rfl rfl
      fun id hid => Or.inl hid
  have hadded : t.timers.manager.made = s.timers.manager.made + 1 ∧
      t.timers.manager.objects s.timers.manager.made
        = { ms := (s.call c).timeout, next := addSize now (s.call c).timeout, callback := some 0,
            recurring := false, ptr := ptr } := by
    rw [← Except.ok.inj hrun]
    exact ⟨rfl, TimerManager.setObject_self _⟩
  obtain ⟨hlt, hfiber, -⟩ := hinv.own f c (by rw [hpc]; rfl)
  have hne : ∀ id c', s.captured id = some c' → id ≠ s.timers.manager.made :=
    fun id c' hid => (h.captured id c' hid).1.ne
  have hold : ∀ id, id ≠ s.timers.manager.made →
      t.captured id = s.captured id ∧ t.since id = s.since id := by
    intro id hid
    rw [hcaptured, hsince, Function.update_of_ne hid, Function.update_of_ne hid]
    exact ⟨rfl, rfl⟩
  have hnew : t.captured s.timers.manager.made = some c ∧ t.since s.timers.manager.made = now := by
    rw [hcaptured, hsince, Function.update_self, Function.update_self]
    exact ⟨rfl, rfl⟩
  have hexpired : ∀ c', State.Expired { s with timers := t.timers } c' → t.Expired c' := by
    intro c' hc'
    refine hc'.mono (fun id hid => ?_) (fun e he => he) (congrFun hcall c')
    obtain ⟨hid', hsince'⟩ := hold id (hne id c' hid)
    exact ⟨hid'.trans hid, hsince'⟩
  have hself : t.pc f = .adding c (some s.timers.manager.made) := by rw [hpc', Function.update_self]
  have hother : ∀ g, g ≠ f → t.pc g = s.pc g := by
    intro g hg
    rw [hpc', Function.update_of_ne hg]
  constructor
  · exact hu.timers
  · intro id c' hid
    by_cases heq : id = s.timers.manager.made
    · subst heq
      rw [hnew.1] at hid
      cases hid
      rw [hadded.1, hadded.2, hnew.2, hmade, hcall]
      exact ⟨Nat.lt_succ_self _, hlt, rfl, rfl⟩
    · rw [(hold id heq).1] at hid
      rw [(hold id heq).2, hmade, hcall]
      exact hu.captured id c' hid
  · intro id c' hid hin
    by_cases heq : id = s.timers.manager.made
    · subst heq
      rw [hnew.1] at hid
      cases hid
      exact ⟨f, by rw [hself]; rfl, by rw [hself]; rfl⟩
    · rw [(hold id heq).1] at hid
      obtain ⟨g, hg, htimer⟩ := hu.armed id c' hid hin
      have hgf : g ≠ f := by
        rintro rfl
        change (s.pc g).timer = some id at htimer
        rw [hpc] at htimer
        cases htimer
      exact ⟨g, by rw [hother g hgf]; exact hg, by rw [hother g hgf]; exact htimer⟩
  · intro g id htimer
    by_cases hgf : g = f
    · subst hgf
      rw [hself] at htimer ⊢
      cases htimer
      exact ⟨c, rfl, hnew.1⟩
    · rw [hother g hgf] at htimer ⊢
      obtain ⟨c', hc', hid⟩ := h.mine g id htimer
      exact ⟨c', hc', (hold id (hne id c' hid)).1.trans hid⟩
  · intro id hid
    rw [hcallbacks] at hid
    exact hu.made id hid
  · intro id hid c' hc'
    rw [hcallbacks] at hid
    rw [(hold id (h.made id hid).ne).1] at hc'
    exact hexpired c' (hu.callbacks id hid c' hc')
  · rw [hwriting]
    exact fun c' hc' => hexpired c' (hu.writing c' hc')
  · intro c' errno hc' hset
    rw [hcondition] at hc'
    exact hexpired c' (hu.condition c' errno hc' hset)
  · intro c' errno hin
    rw [hreturned] at hin
    exact hexpired c' (hu.punctual c' errno hin)

/-- A fiber leaves a call, with no timer left. -/
theorem finish (h : Timed s) {c : Nat} {outcome : Outcome}
    (hgone : ∀ id, (s.pc f).timer = some id → id ∉ s.timers.manager.timers)
    (hexpired : ∀ errno, outcome = .timedOut errno → s.Expired c) : Timed (s.finish f c outcome) := by
  refine h.move rfl (Or.inr ⟨rfl, hgone⟩) rfl rfl rfl le_rfl (fun _ _ => rfl) rfl rfl h.condition
    fun c' errno hin => ?_
  rcases List.mem_append.mp hin with hold | hnew
  · exact h.punctual c' errno hold
  · cases List.mem_singleton.mp hnew
    exact hexpired errno rfl

theorem gone_of_pc {pc : Pc} (hpc : s.pc f = pc) (hnone : pc.timer = none) (id : Nat)
    (htimer : (s.pc f).timer = some id) : id ∉ s.timers.manager.timers := by
  rw [hpc, hnone] at htimer
  cases htimer

/-- **The step lemma.** -/
theorem step (h : Timed s) (hinv : Inv s) {l : Label} (hpossible : s.Possible l)
    (hdoes : Does layout s l t) : Timed t := by
  have hcallOf : ∀ call : Call, ∀ c < s.made, Function.update s.call s.made call c = s.call c :=
    fun call c hc => Function.update_of_ne hc.ne _ _
  cases hdoes with
  | closed hpc hgate =>
      refine h.keep rfl rfl rfl (Nat.le_succ _) (hcallOf _) (fun g c id hg htimer _ => ⟨hg, htimer⟩)
        h.mine (fun _ hid => hid) h.writing h.condition fun c errno hin => ?_
      rcases List.mem_append.mp hin with hold | hnew
      · exact h.punctual c errno hold
      · cases List.mem_singleton.mp hnew
  | direct hpc hgate =>
      exact h.move rfl (Or.inr ⟨rfl, gone_of_pc hpc rfl⟩) rfl rfl rfl (Nat.le_succ _) (hcallOf _) rfl
        rfl h.condition h.punctual
  | hooked hpc hgate =>
      refine h.move rfl (Or.inr ⟨rfl, gone_of_pc hpc rfl⟩) rfl rfl rfl (Nat.le_succ _) (hcallOf _) rfl
        rfl (fun c errno hc hset => ?_) h.punctual
      by_cases hne : c = s.made
      · subst hne
        exact absurd (Option.some.inj ((Function.update_self s.made _ _).symm.trans hc)).symm hset
      · exact h.condition c errno ((Function.update_of_ne hne _ _).symm.trans hc) hset
  | @passed f a c hpc =>
      have hrecord : Timed (s.record c a) :=
        h.keep rfl rfl rfl le_rfl (fun _ _ => rfl) (fun g c id hg htimer _ => ⟨hg, htimer⟩) h.mine
          (fun _ hid => hid) h.writing h.condition h.punctual
      exact hrecord.finish (gone_of_pc hpc rfl) fun errno heq => by cases heq
  | interrupted hpc ha =>
      exact h.keep rfl rfl rfl le_rfl (fun _ _ => rfl) (fun g c id hg htimer _ => ⟨hg, htimer⟩) h.mine
        (fun _ hid => hid) h.writing h.condition h.punctual
  | pending hpc hno ha =>
      exact h.move rfl (Or.inl (by rw [hpc]; exact ⟨rfl, rfl⟩)) rfl rfl rfl le_rfl (fun _ _ => rfl) rfl
        rfl h.condition h.punctual
  | @answered f a c hpc ha =>
      have hrecord : Timed (s.record c a) :=
        h.keep rfl rfl rfl le_rfl (fun _ _ => rfl) (fun g c id hg htimer _ => ⟨hg, htimer⟩) h.mine
          (fun _ hid => hid) h.writing h.condition h.punctual
      exact hrecord.finish (gone_of_pc hpc rfl) fun errno heq => by cases heq
  | unarmed hpc hforever =>
      exact h.move rfl (Or.inl (by rw [hpc]; exact ⟨rfl, rfl⟩)) rfl rfl rfl le_rfl (fun _ _ => rfl) rfl
        rfl h.condition h.punctual
  | armed hpc hlong hrun => exact h.arm hinv hpc hpossible hrun rfl rfl rfl rfl rfl rfl rfl rfl rfl
  | added hpc hrun =>
      exact h.move rfl (Or.inl (by rw [hpc]; exact ⟨rfl, rfl⟩)) rfl rfl rfl le_rfl (fun _ _ => rfl) rfl
        rfl h.condition h.punctual
  | refused hpc hrun =>
      exact h.move rfl (Or.inl (by rw [hpc]; exact ⟨rfl, rfl⟩)) rfl rfl rfl le_rfl (fun _ _ => rfl) rfl
        rfl h.condition h.punctual
  | @notAdded f c timer s' hpc hcancel =>
      obtain ⟨timers, rfl, -⟩ := Inv.cancelTimer_eq_some hcancel
      obtain ⟨hcancelled, hgone⟩ := h.cancelTimer (by rw [hpc]; rfl) hcancel
      refine hcancelled.finish (fun id htimer => hgone id ?_) fun errno heq => by cases heq
      exact (congrArg Pc.timer hpc).symm.trans htimer
  | resumed hpc hany =>
      exact h.move rfl (Or.inl (by rw [hpc]; exact ⟨rfl, rfl⟩)) rfl rfl rfl le_rfl (fun _ _ => rfl) rfl
        rfl h.condition h.punctual
  | @disarmed f c timer s' hpc hcancel =>
      obtain ⟨timers, rfl, -⟩ := Inv.cancelTimer_eq_some hcancel
      obtain ⟨hcancelled, hgone⟩ := h.cancelTimer (by rw [hpc]; rfl) hcancel
      refine hcancelled.move rfl (Or.inr ⟨rfl, fun id htimer => hgone id ?_⟩) rfl rfl rfl le_rfl
        (fun _ _ => rfl) rfl rfl hcancelled.condition hcancelled.punctual
      exact (congrArg Pc.timer hpc).symm.trans htimer
  | retried hpc hcondition hkind =>
      exact h.move rfl (Or.inl (by rw [hpc]; exact ⟨rfl, rfl⟩)) rfl rfl rfl le_rfl (fun _ _ => rfl) rfl
        rfl h.condition h.punctual
  | connected hpc hcondition hkind =>
      exact h.move rfl (Or.inl (by rw [hpc]; exact ⟨rfl, rfl⟩)) rfl rfl rfl le_rfl (fun _ _ => rfl) rfl
        rfl h.condition h.punctual
  | timedOut hpc hcondition hset =>
      exact h.finish (gone_of_pc hpc rfl) fun _ _ => h.condition _ _ hcondition hset
  | soError hpc => exact h.finish (gone_of_pc hpc rfl) fun errno heq => by cases heq
  | @expired curr ptr timers hrun =>
      have hunused : s.timers.Possible (.listOverTimeCallback curr ptr) := hpossible
      refine h.perform hunused hrun (fun id hid _ => by cases hid) rfl rfl rfl rfl rfl rfl rfl rfl
        fun id hid => ?_
      refine (List.mem_append.mp hid).imp_right fun hnew => ⟨curr, ?_⟩
      rw [← Except.ok.inj hrun]
      exact List.mem_append_right _ (List.mem_map.mpr ⟨id, hnew, rfl⟩)
  | dispatched hrun =>
      exact h.keep rfl rfl rfl le_rfl (fun _ _ => rfl) (fun g c id hg htimer _ => ⟨hg, htimer⟩) h.mine
        (fun _ hid => hid) h.writing h.condition h.punctual
  | dead hin =>
      exact h.keep rfl rfl rfl le_rfl (fun _ _ => rfl) (fun g c id hg htimer _ => ⟨hg, htimer⟩) h.mine
        (fun _ hid => List.mem_of_mem_erase hid) h.writing h.condition h.punctual
  | @fired timer c hin hcaptured hlocks hcondition =>
      refine h.keep rfl rfl rfl le_rfl (fun _ _ => rfl) (fun g c id hg htimer _ => ⟨hg, htimer⟩) h.mine
        (fun _ hid => List.mem_of_mem_erase hid) (fun c' hc' => ?_) h.condition h.punctual
      rcases List.mem_append.mp hc' with hold | hnew
      · exact h.writing c' hold
      · rw [List.mem_singleton.mp hnew]
        exact h.callbacks timer hin c hcaptured
  | @written c hin =>
      refine h.keep rfl rfl rfl le_rfl (fun _ _ => rfl) (fun g c id hg htimer _ => ⟨hg, htimer⟩) h.mine
        (fun _ hid => hid) (fun c' hc' => h.writing c' (List.mem_of_mem_erase hc'))
        (fun c' errno hc' hset => ?_) h.punctual
      by_cases hne : c' = c
      · rw [hne]
        exact h.writing c hin
      · exact h.condition c' errno ((Function.update_of_ne hne _ _).symm.trans hc') hset
  | cancelled hin hrun =>
      exact h.keep rfl rfl rfl le_rfl (fun _ _ => rfl) (fun g c id hg htimer _ => ⟨hg, htimer⟩) h.mine
        (fun _ hid => hid) h.writing h.condition h.punctual
  | deleted hrun =>
      exact h.keep rfl rfl rfl le_rfl (fun _ _ => rfl) (fun g c id hg htimer _ => ⟨hg, htimer⟩) h.mine
        (fun _ hid => hid) h.writing h.condition h.punctual
  | table hrun hkept =>
      exact h.keep rfl rfl rfl le_rfl (fun _ _ => rfl) (fun g c id hg htimer _ => ⟨hg, htimer⟩) h.mine
        (fun _ hid => hid) h.writing h.condition h.punctual
  | timers hrun =>
      obtain ⟨hcall, hothers, -⟩ := hpossible
      refine h.perform hcall hrun (fun id hid => ?_) rfl rfl rfl rfl rfl rfl rfl rfl fun id hid => Or.inl hid
      rintro ⟨c, hc⟩
      rw [hothers id hid] at hc
      cases hc

end Timed

theorem timed_of_reached {s : State} (h : Reached layout s) : Inv s ∧ Timed s := by
  apply Transition.Reachable.invariant (fun _ hnew => ⟨Inv.init hnew, Timed.init hnew⟩) _ h
  rintro s l t ⟨hinv, htimed⟩ ⟨hpossible, hstep⟩
  have hdoes := does_of_step hstep
  exact ⟨hinv.step hpossible hdoes, htimed.step hinv hpossible hdoes⟩

/-- **No timer outlives its call**: whatever is armed is still to be cancelled by a fiber. -/
theorem disarms_of_reached {s : State} (h : Reached layout s) : s.Disarms := by
  obtain ⟨hinv, htimed⟩ := timed_of_reached h
  intro id c hid hin
  obtain ⟨f, hcall, htimer⟩ := htimed.armed id c hid hin
  exact ⟨f, (hinv.own f c hcall).2.1, hcall, htimer⟩

/-- A reader's timer is in the set. -/
theorem disarms_of_reached_reads : ∃ s : State, s.timers.manager.timers = [0] ∧ s.Disarms := by
  have htimers : (reads.foldlM next fresh).map (fun s => s.timers.manager.timers) = some [0] := by
    decide +kernel
  obtain ⟨s, hrun, hreads⟩ := exists_of_script htimers
  exact ⟨s, hreads, disarms_of_reached (reached_of_script hrun)⟩

/-- **No call times out early.** -/
theorem punctual_of_reached {s : State} (h : Reached layout s) : s.Punctual := (timed_of_reached h).2.punctual

theorem punctual_of_reached_readsInVain : ∃ s : State, s.returned = [(0, .timedOut etimedout)] ∧
    s.Punctual := by
  obtain ⟨s, hs, hreads⟩ := returned_readsInVain
  exact ⟨s, hreads, punctual_of_reached hs⟩

end HookedIO

end AsyncRPC
