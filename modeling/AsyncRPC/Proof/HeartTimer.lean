import AsyncRPC.HeartTimer
import AsyncRPC.Proof.TimerCalls
import AsyncRPC.Proof.TimerFrames

/-!
# Who is given up

The heart timer of a client that has not been given up is in the set, and is due `alive_time_` after the
client was last heard from; so a pass finds it just when it has to. Once it is collected it has no
callback, and `update` does not get it back.
-/

namespace AsyncRPC

open Word

namespace HeartTimer

variable {C : Type} [DecidableEq C] {s t : State C} {c : C} {id now : Nat} {log : List (Event C)}
  {e : Event C}

section Log

theorem lastHeard_heard (log : List (Event C)) (c : C) (now : Nat) :
    lastHeard (log ++ [.heard c now]) c = some now := by
  have hreading : Event.readingOf c (.heard c now) = some now := if_pos rfl
  rw [lastHeard, List.filterMap_append, List.filterMap_cons_some hreading, List.filterMap_nil,
    List.getLast?_append, List.getLast?_singleton]
  rfl

theorem lastHeard_other (hother : e.readingOf c = none) : lastHeard (log ++ [e]) c = lastHeard log c := by
  rw [lastHeard, List.filterMap_append, List.filterMap_cons_none hother, List.filterMap_nil,
    List.append_nil, lastHeard]

omit [DecidableEq C] in
theorem givenUp_append : givenUp (log ++ [e]) = givenUp log ++ e.clients := by
  rw [givenUp, List.flatMap_append, List.flatMap_singleton, givenUp]

/-- One more event: if it is a pass, it has to decide rightly. -/
theorem Attentive.append (h : Attentive log)
    (he : ∀ curr clients, e = .pass curr clients → Judges log curr clients) : Attentive (log ++ [e]) := by
  intro before curr clients after heq
  rcases List.eq_nil_or_concat after with rfl | ⟨after, e', rfl⟩
  · obtain ⟨rfl, hlast⟩ := List.append_inj' heq rfl
    exact he curr clients (List.singleton_inj.mp hlast)
  · have hsplit : log ++ [e] = (before ++ .pass curr clients :: after) ++ [e'] := by
      rw [heq, List.concat_eq_append]
      simp
    exact h before curr clients after (List.append_inj' hsplit rfl).1

end Log

/-- What the log says of a client is what its timer says. -/
structure Kept (m : TimerManager) (log : List (Event C)) (c : C) (id : Nat) : Prop where
  made : id < m.made
  once : (m.objects id).recurring = false
  heard : ∃ now, lastHeard log c = some now ∧
    ((m.objects id).callback.isSome = true → (m.objects id).next = now + aliveTime)
  spent : (m.objects id).callback = none ↔ c ∈ givenUp log

structure Inv (s : State C) : Prop where
  timers : s.timers.Inv
  attentive : Attentive s.log
  once : s.ClosesOnce
  unknown : ∀ c, s.pc c = .outside → lastHeard s.log c = none ∧ c ∉ givenUp s.log
  captured : ∀ id c, s.captured id = some c ↔ (s.pc c).timer = some id
  kept : ∀ c id, (s.pc c).timer = some id → Kept s.timers.manager s.log c id
  callbacks : ∀ id ∈ s.callbacks, id < s.timers.manager.made

theorem Inv.init (h : New s) : Inv s where
  timers := h.timers ▸ TimerHistory.inv_init
  attentive := by
    intro before curr clients after heq
    rw [h.log] at heq
    exact absurd heq.symm (List.append_ne_nil_of_right_ne_nil _ (List.cons_ne_nil _ _))
  once := by
    refine ⟨?_, ?_⟩
    · rw [h.log]
      exact List.nodup_nil
    · rw [h.log, h.closed, h.callbacks]
      exact List.Perm.refl _
  unknown := fun c _ => by simp [h.log, lastHeard, givenUp]
  captured := fun id c => by simp [h.captured, h.pc, Pc.timer]
  kept := fun c id htimer => by simp [h.pc, Pc.timer] at htimer
  callbacks := fun id hid => by simp [h.callbacks] at hid

theorem Kept.congr {m m' : TimerManager} {log' : List (Event C)} (h : Kept m log c id)
    (hmade : m.made ≤ m'.made) (hobject : m'.objects id = m.objects id)
    (hlast : lastHeard log' c = lastHeard log c) (hgiven : c ∈ givenUp log' ↔ c ∈ givenUp log) :
    Kept m' log' c id where
  made := h.made.trans_le hmade
  once := hobject ▸ h.once
  heard := by
    rw [hlast, hobject]
    exact h.heard
  spent := by
    rw [hobject, hgiven]
    exact h.spent

/-- Steps in which no pass decides. -/
theorem Inv.keep (h : Inv s) (htimers : t.timers.Inv) (hmade : s.timers.manager.made ≤ t.timers.manager.made)
    (hlog : t.log = s.log ∨ ∃ c now, t.log = s.log ++ [.heard c now])
    (honce : (t.closed ++ t.callbacks.filterMap t.captured).Perm
      (s.closed ++ s.callbacks.filterMap s.captured))
    (hcallbacks : ∀ id ∈ t.callbacks, id ∈ s.callbacks)
    (hunknown : ∀ c, t.pc c = .outside → lastHeard t.log c = lastHeard s.log c ∧ s.pc c = .outside)
    (hcaptured : ∀ id c, t.captured id = some c ↔ (t.pc c).timer = some id)
    (hkept : ∀ c id, (t.pc c).timer = some id → Kept t.timers.manager t.log c id) : Inv t := by
  have hgiven : givenUp t.log = givenUp s.log := by
    rcases hlog with hlog | ⟨c, now, hlog⟩
    · rw [hlog]
    · rw [hlog, givenUp_append]
      exact List.append_nil _
  refine
    { timers := htimers
      attentive := ?_
      once := ⟨hgiven ▸ h.once.nodup, hgiven ▸ honce.trans h.once.closes⟩
      unknown := fun c hc => ?_
      captured := hcaptured
      kept := hkept
      callbacks := fun id hid => (h.callbacks id (hcallbacks id hid)).trans_le hmade }
  · rcases hlog with hlog | ⟨c, now, hlog⟩
    · rw [hlog]
      exact h.attentive
    · rw [hlog]
      exact h.attentive.append fun curr clients heq => by cases heq
  · obtain ⟨hlast, hout⟩ := hunknown c hc
    rw [hgiven, hlast]
    exact h.unknown c hout

section Steps

/-- A timer is the timer of one client. -/
theorem Inv.unique (h : Inv s) {c' : C} (hid : (s.pc c).timer = some id) (hid' : (s.pc c').timer = some id) :
    c = c' :=
  Option.some.inj (((h.captured id c).mpr hid).symm.trans ((h.captured id c').mpr hid'))

theorem Kept.rearmed {m : TimerManager} (h : Kept m log c id) (hholds : TimerManager.Holds m [])
    (hnow : now + aliveTime < 2 ^ 64) :
    Kept (m.reset id aliveTime true now).2 (log ++ [.heard c now]) c id := by
  have hgiven : givenUp (log ++ [.heard c now]) = givenUp log := givenUp_append.trans (List.append_nil _)
  have hlong : ¬ ((m.objects id).ms = aliveTime ∧ true = false) := fun hboth => by cases hboth.2
  by_cases harmed : (m.objects id).callback.isSome = true
  · have hobject := (hholds.reset_armed hlong harmed now).2.object
    refine ⟨h.made.trans_le (hholds.reset id aliveTime true now).2.made_le, ?_,
      ⟨now, lastHeard_heard _ _ _, ?_⟩, ?_⟩
    · rw [hobject]
      exact h.once
    · intro _
      rw [hobject]
      exact addSize_of_lt hnow
    · rw [hobject, hgiven]
      exact h.spent
  · have hnone : (m.objects id).callback = none := by simpa using harmed
    have hsame : (m.reset id aliveTime true now).2 = m := by
      rw [TimerManager.reset_unarmed hlong hnone]
    rw [hsame]
    refine ⟨h.made, h.once, ⟨now, lastHeard_heard _ _ _, fun hsome => absurd hsome harmed⟩, ?_⟩
    rw [hgiven]
    exact h.spent

theorem Inv.update (h : Inv s) {ptr : Nat} (hunused : s.timers.Unused ptr)
    (hnow : now + aliveTime < 2 ^ 64) (hstep : s.update c ptr now = some t) : Inv t := by
  have hother : ∀ c', c' ≠ c → Event.readingOf c' (.heard c now) = none := fun c' hne => if_neg hne.symm
  have hgiven : ∀ c', c' ∈ givenUp (s.log ++ [.heard c now]) ↔ c' ∈ givenUp s.log := by
    intro c'
    rw [givenUp_append]
    exact List.mem_append.trans (or_iff_left List.not_mem_nil)
  rw [State.update] at hstep
  split at hstep
  · next hpc =>
    obtain ⟨timers, hrun, rfl⟩ := Outcome.map_toOption_eq_some hstep
    have hpossible : s.timers.Possible (.addTimer ptr now aliveTime (some 0) false) := ⟨hunused, rfl⟩
    have hinv := (h.timers.performs hpossible hrun).1
    have hlt : ∀ c' id, (s.pc c').timer = some id → id ≠ s.timers.manager.made :=
      fun c' id htimer => (h.kept c' id htimer).made.ne
    have hself : Function.update s.pc c (.serving s.timers.manager.made) c = .serving s.timers.manager.made :=
      Function.update_self _ _ _
    cases hrun
    refine h.keep hinv (Nat.le_succ _) (Or.inr ⟨c, now, rfl⟩) ?_ (fun _ hid => hid) ?_ ?_ ?_
    · refine List.Perm.of_eq (congrArg (s.closed ++ ·) (List.filterMap_congr fun id hid => ?_))
      exact Function.update_of_ne (h.callbacks id hid).ne _ _
    · intro c' hout
      change Function.update s.pc c _ c' = _ at hout
      by_cases hc : c' = c
      · rw [hc, hself] at hout
        cases hout
      · rw [Function.update_of_ne hc] at hout
        exact ⟨lastHeard_other (hother c' hc), hout⟩
    · intro id c'
      change Function.update s.captured s.timers.manager.made (some c) id = some c' ↔
        (Function.update s.pc c _ c').timer = some id
      by_cases hid : id = s.timers.manager.made
      · subst hid
        rw [Function.update_self]
        by_cases hc : c' = c
        · rw [hc, hself]
          exact iff_of_true rfl rfl
        · rw [Function.update_of_ne hc]
          exact iff_of_false (fun heq => hc (Option.some.inj heq).symm) fun htimer => hlt c' _ htimer rfl
      · rw [Function.update_of_ne hid, h.captured]
        by_cases hc : c' = c
        · rw [hc, hself, hpc]
          exact iff_of_false (fun heq => by cases heq) fun heq => hid (Option.some.inj heq).symm
        · rw [Function.update_of_ne hc]
    · intro c' id htimer
      change (Function.update s.pc c _ c').timer = some id at htimer
      by_cases hc : c' = c
      · rw [hc] at htimer ⊢
        rw [hself] at htimer
        cases htimer
        have hobject : (s.timers.manager.addTimer ptr now aliveTime (some 0) false).objects
            s.timers.manager.made = ⟨aliveTime, addSize now aliveTime, some 0, false, ptr⟩ :=
          TimerManager.setObject_self _
        refine ⟨Nat.lt_succ_self _, ?_, ⟨now, lastHeard_heard _ _ _, fun _ => ?_⟩, iff_of_false ?_ ?_⟩
        · exact congrArg Timer.recurring hobject
        · exact (congrArg Timer.next hobject).trans (addSize_of_lt hnow)
        · intro hnone
          cases (congrArg Timer.callback hobject).symm.trans hnone
        · exact (not_congr (hgiven c)).mpr (h.unknown c hpc).2
      · rw [Function.update_of_ne hc] at htimer
        refine (h.kept c' id htimer).congr (Nat.le_succ _) ?_ (lastHeard_other (hother c' hc)) (hgiven c')
        exact TimerManager.addTimer_of_ne (hlt c' id htimer) ptr now aliveTime (some 0) false
  · next id hpc =>
    obtain ⟨timers, hrun, rfl⟩ := Outcome.map_toOption_eq_some hstep
    have htimer : (s.pc c).timer = some id := congrArg Pc.timer hpc
    have hpossible : s.timers.Possible (.reset id aliveTime true now) := (h.kept c id htimer).made
    obtain ⟨hinv, hfollows, -⟩ := h.timers.performs hpossible hrun
    cases hrun
    refine h.keep hinv hfollows.made_le (Or.inr ⟨c, now, rfl⟩) (List.Perm.refl _) (fun _ hid => hid) ?_
      h.captured ?_
    · intro c' hout
      refine ⟨lastHeard_other (hother c' ?_), hout⟩
      rintro rfl
      cases hpc.symm.trans hout
    · intro c' id' htimer'
      by_cases hc : c' = c
      · rw [hc] at htimer' ⊢
        obtain rfl := Option.some.inj (htimer.symm.trans htimer')
        exact (h.kept c id htimer).rearmed h.timers.holds hnow
      · have hne : id' ≠ id := by
          rintro rfl
          exact hc (h.unique htimer' htimer)
        refine (h.kept c' id' htimer').congr hfollows.made_le ?_ (lastHeard_other (hother c' hc)) (hgiven c')
        exact TimerManager.reset_of_ne hne aliveTime true now
  · cases hstep

theorem Inv.leave (h : Inv s) (hstep : s.leave c = some t) : Inv t := by
  rw [State.leave] at hstep
  split at hstep
  · next id hpc =>
    cases hstep
    have htimer : ∀ c', (Function.update s.pc c (.returned id) c').timer = (s.pc c').timer := by
      intro c'
      by_cases hc : c' = c
      · rw [hc, Function.update_self, hpc]
        rfl
      · rw [Function.update_of_ne hc]
    refine h.keep h.timers le_rfl (Or.inl rfl) (List.Perm.refl _) (fun _ hid => hid) ?_ ?_ ?_
    · intro c' hout
      change Function.update s.pc c _ c' = _ at hout
      by_cases hc : c' = c
      · rw [hc, Function.update_self] at hout
        cases hout
      · rw [Function.update_of_ne hc] at hout
        exact ⟨rfl, hout⟩
    · intro id' c'
      exact (h.captured id' c').trans (by rw [State.goto, htimer])
    · intro c' id' hid'
      exact h.kept c' id' ((htimer c').symm.trans hid')
  · cases hstep
  · cases hstep

/-- The pass finds just the clients that it has to. -/
theorem Inv.judges (h : Inv s) (curr ptr : Nat) :
    Judges s.log curr ((s.timers.manager.expired curr ptr).filterMap s.captured) := by
  have hholds := h.timers.holds
  intro c
  constructor
  · intro hin
    obtain ⟨id, hid, hcaptured⟩ := List.mem_filterMap.mp hin
    have hkept := h.kept c id ((h.captured id c).mp hcaptured)
    have harmed := (hholds.armed id).mpr (Or.inl (List.mem_of_mem_take hid))
    obtain ⟨now, hlast, hnext⟩ := hkept.heard
    refine ⟨fun hgiven => ?_, now, hlast, ?_⟩
    · rw [hkept.spent.mpr hgiven] at harmed
      cases harmed
    · rw [← hnext harmed]
      exact TimerManager.next_le_of_mem_expired hid
  · intro now hlast hlate
    cases hpc : (s.pc c).timer with
    | none =>
        have hout : s.pc c = .outside := by
          generalize s.pc c = pc at hpc
          cases pc with
          | outside => rfl
          | serving id => cases hpc
          | returned id => cases hpc
        cases (h.unknown c hout).1.symm.trans hlast
    | some id =>
        have hkept := h.kept c id hpc
        by_cases hnone : (s.timers.manager.objects id).callback = none
        · exact Or.inr (hkept.spent.mp hnone)
        · have harmed := Option.isSome_iff_ne_none.mpr hnone
          obtain ⟨now', hlast', hnext⟩ := hkept.heard
          obtain rfl := Option.some.inj (hlast.symm.trans hlast')
          refine Or.inl (List.mem_filterMap.mpr ⟨id, ?_, (h.captured id c).mpr hpc⟩)
          rw [TimerManager.mem_expired_iff hholds.sorted, TimerManager.key_le_iff, hnext harmed]
          exact ⟨hholds.mem_timers harmed, Or.inl hlate⟩

theorem Inv.expire (h : Inv s) {curr ptr : Nat} (hunused : s.timers.Unused ptr)
    (hstep : s.expire curr ptr = some t) : Inv t := by
  obtain ⟨timers, hrun, rfl⟩ := Outcome.map_toOption_eq_some hstep
  have hpossible : s.timers.Possible (.listOverTimeCallback curr ptr) := hunused
  have hinv := (h.timers.performs hpossible hrun).1
  have hjudges := h.judges curr ptr
  obtain ⟨-, hfollows, -, hspent⟩ := h.timers.holds.listOverTimeCallback curr ptr []
  cases hrun
  have hclients : ∀ c, c ∈ (s.timers.manager.expired curr ptr).filterMap s.captured ↔
      ∃ id ∈ s.timers.manager.expired curr ptr, (s.pc c).timer = some id := by
    intro c
    simp only [List.mem_filterMap, h.captured]
  have hgiven : givenUp (s.log ++ [.pass curr ((s.timers.manager.expired curr ptr).filterMap s.captured)])
      = givenUp s.log ++ (s.timers.manager.expired curr ptr).filterMap s.captured := givenUp_append
  have hmem : ∀ c, c ∈ givenUp (s.log ++
      [.pass curr ((s.timers.manager.expired curr ptr).filterMap s.captured)]) ↔
        c ∈ givenUp s.log ∨ ∃ id ∈ s.timers.manager.expired curr ptr, (s.pc c).timer = some id := by
    intro c
    rw [hgiven, List.mem_append, hclients]
  refine
    { timers := hinv
      attentive := h.attentive.append fun curr' clients heq => ?_
      once := ⟨?_, ?_⟩
      unknown := fun c hout => ?_
      captured := h.captured
      kept := fun c id htimer => ?_
      callbacks := fun id hid => ?_ }
  · cases heq
    exact hjudges
  · refine hgiven.symm ▸ List.nodup_append.mpr ⟨h.once.nodup, ?_, fun c hc c' hc' heq => ?_⟩
    · refine List.Nodup.filterMap (fun id id' c hid hid' => ?_)
        (TimerManager.nodup_expired h.timers.holds.sorted)
      have htimer := (h.captured id c).mp hid
      exact Option.some.inj (htimer.symm.trans ((h.captured id' c).mp hid'))
    · exact ((hjudges c').1 hc').1 (heq ▸ hc)
  · refine hgiven.symm ▸ ?_
    rw [List.filterMap_append, ← List.append_assoc]
    exact h.once.closes.append_right _
  · obtain ⟨hlast, hnot⟩ := h.unknown c hout
    refine ⟨(lastHeard_other rfl).trans hlast, (not_congr (hmem c)).mpr ?_⟩
    rintro (hold | ⟨id, -, htimer⟩)
    · exact hnot hold
    · cases (congrArg Pc.timer hout).symm.trans htimer
  · have hkept := h.kept c id htimer
    by_cases hid : id ∈ s.timers.manager.expired curr ptr
    · have hnone := hspent id hid hkept.once
      refine ⟨hkept.made.trans_le hfollows.made_le, (hfollows.recurring_eq id hkept.made).trans hkept.once,
        ?_, iff_of_true hnone ((hmem c).mpr (Or.inr ⟨id, hid, htimer⟩))⟩
      obtain ⟨now, hlast, -⟩ := hkept.heard
      refine ⟨now, (lastHeard_other rfl).trans hlast, fun hsome => ?_⟩
      cases (congrArg Option.isSome hnone).symm.trans hsome
    · refine hkept.congr hfollows.made_le (TimerManager.listOverTimeCallback_of_not_mem hid [])
        (lastHeard_other rfl) ((hmem c).trans (or_iff_left ?_))
      rintro ⟨id', hid', htimer'⟩
      obtain rfl := Option.some.inj (htimer.symm.trans htimer')
      exact hid hid'
  · rcases List.mem_append.mp hid with hold | hnew
    · exact (h.callbacks id hold).trans_le hfollows.made_le
    · have harmed := (h.timers.holds.armed id).mpr (Or.inl (List.mem_of_mem_take hnew))
      exact (h.timers.holds.lt_made harmed).trans_le hfollows.made_le

theorem Inv.fire (h : Inv s) (hstep : s.fire id = some t) : Inv t := by
  rw [State.fire] at hstep
  split at hstep
  · next hid =>
    cases hstep
    refine h.keep h.timers le_rfl (Or.inl rfl) ?_ (fun _ hin => List.mem_of_mem_erase hin)
      (fun c hout => ⟨rfl, hout⟩) h.captured h.kept
    have hcons : (id :: s.callbacks.erase id).filterMap s.captured
        = (s.captured id).toList ++ (s.callbacks.erase id).filterMap s.captured := by
      rw [List.filterMap_cons]
      cases s.captured id with
      | none => rfl
      | some c => rfl
    have hperm := ((List.perm_cons_erase hid).filterMap s.captured).symm
    rw [hcons] at hperm
    rw [List.append_assoc]
    exact hperm.append_left s.closed
  · cases hstep

theorem Inv.others (h : Inv s) {call : TimerCall} {timers : TimerHistory}
    (hpossible : s.timers.Possible call) (hon : ∀ id ∈ KeepAlive.on call, s.captured id = none)
    (hpass : ∀ curr ptr, call ≠ .listOverTimeCallback curr ptr)
    (hrun : s.timers.perform call = .ok timers) : Inv { s with timers := timers } := by
  obtain ⟨hinv, hfollows, -⟩ := h.timers.performs hpossible hrun
  refine h.keep hinv hfollows.made_le (Or.inl rfl) (List.Perm.refl _) (fun _ hid => hid)
    (fun c hout => ⟨rfl, hout⟩) h.captured fun c id htimer => ?_
  have hkept := h.kept c id htimer
  refine hkept.congr hfollows.made_le ?_ rfl Iff.rfl
  refine TimerHistory.perform_of_not_on hrun hpass hkept.made fun hin => ?_
  cases (hon id hin).symm.trans ((h.captured id c).mpr htimer)

theorem inv_of_reached (h : Reached s) : Inv s := by
  apply Transition.Reachable.invariant (fun _ hnew => Inv.init hnew) _ h
  rintro s l t hs ⟨hpossible, hstep⟩
  cases l with
  | update c ptr now => exact hs.update hpossible.1 hpossible.2 hstep
  | leave c => exact hs.leave hstep
  | expire curr ptr => exact hs.expire hpossible hstep
  | fire id => exact hs.fire hstep
  | timers call =>
      obtain ⟨timers, hrun, rfl⟩ := Outcome.map_toOption_eq_some hstep
      exact hs.others hpossible.1 hpossible.2.1 hpossible.2.2 hrun

end Steps

section Results

/-- **Nobody who is heard from is given up, and everybody else is.** -/
theorem attentive_of_reached (h : Reached s) : Attentive s.log := (inv_of_reached h).attentive

/-- **A client that is given up has its socket closed once**, when its callback is called. -/
theorem closesOnce_of_reached (h : Reached s) : s.ClosesOnce := (inv_of_reached h).once

/-- **The `IOManager` wakes up in time** for the next client that may have to be given up. -/
theorem wakeful_of_reached (h : Reached s) : s.Wakeful := by
  have hinv := inv_of_reached h
  intro c now curr hlast hnot
  cases hpc : s.pc c with
  | outside => cases (hinv.unknown c hpc).1.symm.trans hlast
  | serving id | returned id =>
      have hkept := hinv.kept c id (congrArg Pc.timer hpc)
      have harmed : (s.timers.manager.objects id).callback.isSome :=
        Option.isSome_iff_ne_none.mpr fun hnone => hnot (hkept.spent.mp hnone)
      obtain ⟨now', hlast', hnext⟩ := hkept.heard
      obtain rfl := Option.some.inj (hlast.symm.trans hlast')
      have hle := hinv.timers.holds.getNextTimerTime_le (hinv.timers.holds.mem_timers harmed) curr
      rwa [hnext harmed] at hle

end Results

section Examples

def started : State Nat :=
  { timers := .init
    pc := fun _ => .outside
    captured := fun _ => none
    callbacks := []
    closed := []
    log := [] }

def unused (s : State Nat) (ptr : Nat) : Bool :=
  s.timers.manager.timers.all fun id => (s.timers.manager.objects id).ptr ≠ ptr

def allowed (s : State Nat) : Label Nat → Bool
  | .update _ ptr now => unused s ptr && now + aliveTime < 2 ^ 64
  | .expire _ ptr => unused s ptr
  | .leave _ | .fire _ => true
  | .timers _ => false

theorem possible_of_allowed {s : State Nat} {l : Label Nat} (h : allowed s l = true) : s.Possible l := by
  have hunused : ∀ {ptr}, unused s ptr = true → s.timers.Unused ptr := by
    intro ptr hall id hid
    exact of_decide_eq_true (List.all_eq_true.mp hall id hid)
  cases l with
  | update c ptr now =>
      obtain ⟨hall, hnow⟩ := Bool.and_eq_true_iff.mp h
      exact ⟨hunused hall, of_decide_eq_true hnow⟩
  | expire curr ptr => exact hunused h
  | leave c => trivial
  | fire id => trivial
  | timers call => cases h

theorem reached_labels {labels : List (Label Nat)} {look : State Nat → Bool}
    (h : (labels.foldlM (Transition.guarded (fun s l => allowed s l = true) State.step) started).map look
      = some true) : ∃ s, Reached s ∧ look s = true := by
  obtain ⟨s, hrun, hlook⟩ := Option.map_eq_some_iff.mp h
  have hnew : New started := ⟨rfl, fun _ => rfl, fun _ => rfl, rfl, rfl, rfl⟩
  refine ⟨s, Transition.Reachable.of_run (fun s l t hstep => ?_) (.start hnew) hrun, hlook⟩
  obtain ⟨hallowed, hstep⟩ := Transition.guarded_step s l t hstep
  exact ⟨possible_of_allowed hallowed, hstep⟩

/-- Two clients, one of whom is not heard from again. -/
def silence : List (Label Nat) :=
  [.update 1 16 0, .update 2 24 0, .leave 1, .update 2 32 30000, .expire 40001 40, .fire 0]

theorem attentive_of_reached_silence : ∃ s : State Nat,
    s.log.getLast? = some (.pass 40001 [1]) ∧ Attentive s.log := by
  obtain ⟨s, hs, hlook⟩ := @reached_labels silence (fun s => s.log.getLast? = some (.pass 40001 [1]))
    (by decide +kernel)
  exact ⟨s, of_decide_eq_true hlook, attentive_of_reached hs⟩

theorem closesOnce_of_reached_silence : ∃ s : State Nat, s.closed = [1] ∧ s.ClosesOnce := by
  obtain ⟨s, hs, hlook⟩ := @reached_labels silence (fun s => s.closed = [1]) (by decide +kernel)
  exact ⟨s, of_decide_eq_true hlook, closesOnce_of_reached hs⟩

theorem wakeful_of_reached_silence : ∃ s : State Nat,
    lastHeard s.log 2 = some 30000 ∧ s.Wakeful := by
  obtain ⟨s, hs, hlook⟩ := @reached_labels silence (fun s => lastHeard s.log 2 = some 30000)
    (by decide +kernel)
  exact ⟨s, of_decide_eq_true hlook, wakeful_of_reached hs⟩

end Examples

end HeartTimer

end AsyncRPC
