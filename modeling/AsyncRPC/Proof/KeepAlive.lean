import AsyncRPC.KeepAlive
import AsyncRPC.Lib.Outcome
import AsyncRPC.Proof.TimerManager

/-!
# One timer for all who wait

`timer_` recurs, so as long as its owner does not cancel it it stays in the set, never more than
`UINT32_MAX` milliseconds ahead. But it is cancelled with the first notification, whoever else is
waiting, and nobody arms it again before the next `wait`.
-/

namespace AsyncRPC

open Transition Word
open TimerManager (Holds)
open KeepAlive (uint32Max reading stopping)

/-! ### A timer that recurs -/

/-- What any call leaves of a timer that recurs, unless it is made on it. -/
theorem TimerHistory.perform_recurring {h h' : TimerHistory} {call : TimerCall} {id : Nat}
    (hrun : h.perform call = .ok h') (hmade : id < h.manager.made)
    (hon : ∀ target ∈ KeepAlive.on call, id ≠ target)
    (hrecurring : (h.manager.objects id).recurring = true) :
    h'.manager.objects id = h.manager.objects id ∨
      ∃ now ∈ reading call, h'.manager.objects id
        = { h.manager.objects id with next := addSize now (h.manager.objects id).ms } := by
  cases call with
  | addTimer ptr now ms callback recurring =>
      cases hrun
      exact Or.inl (TimerManager.addTimer_of_ne hmade.ne ptr now ms callback recurring)
  | cancel target =>
      obtain ⟨⟨answer, m'⟩, hcancel, hlast⟩ := Outcome.bind_eq_ok.mp hrun
      cases hlast
      exact Or.inl (TimerManager.cancel_of_ne (hon target rfl) hcancel)
  | refresh target now =>
      cases hrun
      exact Or.inl (TimerManager.refresh_of_ne (hon target rfl) now)
  | reset target ms fromNow now =>
      cases hrun
      exact Or.inl (TimerManager.reset_of_ne (hon target rfl) ms fromNow now)
  | listOverTimeCallback curr ptr =>
      cases hrun
      refine (TimerManager.listOverTimeCallback_recurring _ curr ptr [] hrecurring).imp_right ?_
      exact fun hnext => ⟨curr, rfl, hnext⟩

namespace KeepAlive

variable {m : TimerManager} {clock id : Nat}

/-- The timer fires within `UINT32_MAX` milliseconds, and again and again. -/
structure Alive (m : TimerManager) (clock id : Nat) : Prop where
  callback : (m.objects id).callback.isSome
  recurring : (m.objects id).recurring = true
  ms : (m.objects id).ms = uint32Max
  next_le : (m.objects id).next ≤ clock + uint32Max

theorem Alive.later {clock' : Nat} (h : Alive m clock id) (hle : clock ≤ clock') :
    Alive m clock' id :=
  { h with next_le := h.next_le.trans (Nat.add_le_add_right hle _) }

theorem addSize_le {now : Nat} (h : now ≤ clock) : addSize now uint32Max ≤ clock + uint32Max :=
  (Nat.mod_le _ _).trans (Nat.add_le_add_right h _)

theorem Alive.perform {h h' : TimerHistory} {call : TimerCall} (halive : Alive h.manager clock id)
    (hinv : h.Inv) (hrun : h.perform call = .ok h') (hon : ∀ target ∈ on call, id ≠ target)
    (hreading : ∀ now ∈ reading call, now ≤ clock) : Alive h'.manager clock id := by
  have hmade := hinv.holds.lt_made halive.callback
  rcases TimerHistory.perform_recurring hrun hmade hon halive.recurring with
    hsame | ⟨now, hnow, hnext⟩
  · exact ⟨hsame ▸ halive.callback, hsame ▸ halive.recurring, hsame ▸ halive.ms,
      hsame ▸ halive.next_le⟩
  · rw [halive.ms] at hnext
    refine ⟨?_, ?_, ?_, ?_⟩
    · rw [hnext]
      exact halive.callback
    · rw [hnext]
      exact halive.recurring
    · rw [hnext]
      exact halive.ms
    · rw [hnext]
      exact addSize_le (hreading now hnow)

/-- As long as it is in the set, the time to the next timer is not infinite. -/
theorem Alive.stopping_eq_false (halive : Alive m clock id) (hholds : Holds m [])
    (pendingEventCount : Nat) (schedulerStopping : Bool) :
    stopping m clock pendingEventCount schedulerStopping = false := by
  have hmem := hholds.mem_timers halive.callback
  have hsoon : m.getNextTimerTime clock ≤ uint32Max := by
    unfold TimerManager.getNextTimerTime
    cases htimers : m.timers with
    | nil =>
        rw [htimers] at hmem
        cases hmem
    | cons first rest =>
        have hfirst : (m.objects first).next ≤ (m.objects id).next := by
          rw [htimers] at hmem
          have hsorted := hholds.sorted
          rw [htimers] at hsorted
          rcases List.mem_cons.mp hmem with rfl | hrest
          · exact Nat.le_refl _
          · have hlt := (List.pairwise_cons.mp hsorted).1 id hrest
            exact (Prod.Lex.toLex_lt_toLex.mp hlt).elim Nat.le_of_lt fun heq => heq.1.le
        dsimp only
        split
        · exact Nat.zero_le _
        · exact Nat.sub_le_iff_le_add'.mpr (hfirst.trans halive.next_le)
  have hfinite : m.getNextTimerTime clock ≠ 2 ^ 64 - 1 := by
    intro heq
    rw [heq] at hsoon
    exact absurd hsoon (by decide)
  unfold stopping
  dsimp only
  rw [decide_eq_false hfinite, Bool.and_false]

/-! ### The condition variable's own -/

namespace State

variable {F : Type} {s t : State F}

structure Inv (s : State F) : Prop where
  timers : s.timers.Inv
  alive : ∀ id, s.timer = some id → Alive s.timers.manager s.clock id

theorem Inv.armed_of_timer (h : s.Inv) (htimer : s.timer = some id) : s.Armed := by
  intro _
  have halive := h.alive id htimer
  exact ⟨⟨id, htimer, h.timers.holds.mem_timers halive.callback⟩,
    halive.stopping_eq_false h.timers.holds⟩

theorem armed_of_empty (h : s.waitQueue = []) : s.Armed := fun hne => absurd h hne

theorem inv_init : (init : State F).Inv where
  timers := TimerHistory.inv_init
  alive _ htimer := by cases htimer

theorem Inv.setQueue (h : s.Inv) (waitQueue : List F) :
    ({ s with waitQueue := waitQueue } : State F).Inv :=
  ⟨h.timers, h.alive⟩

/-- After a `wait` there is a timer. -/
theorem Inv.arm (h : s.Inv) {ptr now : Nat} (hptr : s.timers.Unused ptr) (hnow : now ≤ s.clock) :
    ∃ t, s.arm ptr now = .ok t ∧ t.Inv ∧ t.timer.isSome := by
  unfold State.arm
  by_cases hsome : s.timer.isSome
  · rw [if_pos hsome]
    exact ⟨s, rfl, h, hsome⟩
  · rw [if_neg hsome]
    have hpossible : s.timers.Possible (.addTimer ptr now uint32Max (some emptyCallback) true) :=
      ⟨hptr, rfl⟩
    obtain ⟨timers, hrun, hinv⟩ := h.timers.perform hpossible
    refine ⟨{ s with timer := some s.timers.manager.made, timers := timers }, ?_, ⟨hinv, ?_⟩, rfl⟩
    · rw [hrun]
      rfl
    · intro id hid
      cases hid
      cases hrun
      have hobject : (s.timers.manager.addTimer ptr now uint32Max (some emptyCallback) true).objects
          s.timers.manager.made = Timer.mk uint32Max (addSize now uint32Max) (some emptyCallback) true ptr :=
        TimerManager.setObject_self _
      refine ⟨?_, ?_, ?_, ?_⟩
      · exact hobject ▸ rfl
      · exact hobject ▸ rfl
      · exact hobject ▸ rfl
      · exact hobject ▸ addSize_le hnow

/-- After a notification there is none. -/
theorem Inv.disarm (h : s.Inv) :
    ∃ t, s.disarm = .ok t ∧ t.Inv ∧ t.timer = none ∧ t.waitQueue = s.waitQueue := by
  unfold State.disarm
  cases htimer : s.timer with
  | none => exact ⟨s, rfl, h, htimer, rfl⟩
  | some id =>
      have hpossible : s.timers.Possible (.cancel id) :=
        h.timers.holds.lt_made (h.alive id htimer).callback
      obtain ⟨timers, hrun, hinv⟩ := h.timers.perform hpossible
      refine ⟨{ s with timer := none, timers := timers }, ?_, ⟨hinv, fun _ hid => by cases hid⟩, rfl, rfl⟩
      simp only [hrun]
      rfl

variable [DecidableEq F]

/-- A step that can be taken succeeds, keeps the invariant, and keeps the timer armed unless it is a
notification that leaves somebody waiting. -/
theorem Inv.perform (h : s.Inv) (harmed : s.Armed) {l : Label F} (hpossible : s.Possible l) :
    ∃ t, s.perform l = .ok t ∧ t.Inv ∧ (t.Armed ↔ s.Lone l) := by
  -- what a notification leaves behind
  have hnotified : ∀ waitQueue : List F, ∃ t, State.disarm { s with waitQueue := waitQueue } = .ok t ∧
      t.Inv ∧ (t.Armed ↔ waitQueue = []) := by
    intro waitQueue
    obtain ⟨t, hrun, hinv, htimer, hqueue⟩ := (h.setQueue waitQueue).disarm
    refine ⟨t, hrun, hinv, ?_, fun hempty => armed_of_empty (hqueue.trans hempty)⟩
    intro harmed
    by_contra hne
    obtain ⟨⟨id, hid, -⟩, -⟩ := harmed (hqueue.trans_ne hne)
    rw [htimer] at hid
    cases hid
  cases l with
  | wait f ptr now =>
      obtain ⟨t, hrun, hinv, htimer⟩ := (h.setQueue (s.waitQueue.insert f)).arm hpossible.1 hpossible.2
      obtain ⟨id, hid⟩ := Option.isSome_iff_exists.mp htimer
      exact ⟨t, hrun, hinv, iff_of_true (hinv.armed_of_timer hid) trivial⟩
  | notify first =>
      cases first with
      | none =>
          obtain ⟨t, hrun, hinv, hiff⟩ := hnotified s.waitQueue
          have hempty : s.waitQueue = [] := hpossible
          refine ⟨t, hrun, hinv, iff_of_true (hiff.mpr hempty) ?_⟩
          change s.waitQueue.length ≤ 1
          rw [hempty]
          exact Nat.zero_le 1
      | some f =>
          obtain ⟨t, hrun, hinv, hiff⟩ := hnotified (s.waitQueue.erase f)
          have hmem : f ∈ s.waitQueue := hpossible
          refine ⟨t, hrun, hinv, hiff.trans ?_⟩
          change _ ↔ s.waitQueue.length ≤ 1
          rw [← List.length_eq_zero_iff, List.length_erase_of_mem hmem]
          exact Nat.sub_eq_zero_iff_le
  | notifyAll =>
      obtain ⟨t, hrun, hinv, hiff⟩ := hnotified []
      exact ⟨t, hrun, hinv, iff_of_true (hiff.mpr rfl) trivial⟩
  | timers call =>
      obtain ⟨hcall, hreading, hon⟩ := hpossible
      obtain ⟨timers, hrun, hinv⟩ := h.timers.perform hcall
      have hinv' : ({ s with timers := timers } : State F).Inv := by
        refine ⟨hinv, fun id hid => (h.alive id hid).perform h.timers hrun ?_ hreading⟩
        rintro target htarget rfl
        exact hon id htarget hid
      refine ⟨{ s with timers := timers }, ?_, hinv', iff_of_true ?_ trivial⟩
      · rw [State.perform, hrun]
        rfl
      · intro hne
        obtain ⟨⟨id, hid, -⟩, -⟩ := harmed hne
        exact hinv'.armed_of_timer hid hne
  | advance clock =>
      have hinv' : ({ s with clock := clock } : State F).Inv :=
        ⟨h.timers, fun id hid => (h.alive id hid).later hpossible⟩
      refine ⟨{ s with clock := clock }, rfl, hinv', iff_of_true ?_ trivial⟩
      intro hne
      obtain ⟨⟨id, hid, -⟩, -⟩ := harmed hne
      exact hinv'.armed_of_timer hid hne

/-- **Kept alive.** In every run, `timer_` is armed whenever a fiber waits precisely if no
notification leaves one waiting. -/
theorem armed_iff_lone {labels : List (Label F)}
    (hpossible : AllSteps (attempt perform) (WhenLive Possible) (.ok init) labels) :
    AllStates (attempt perform) (Live Armed) (.ok init) labels ↔
      AllSteps (attempt perform) (WhenLive Lone) (.ok init) labels := by
  refine live_allStates_iff_allSteps ?_ ?_ inv_init (armed_of_empty rfl) hpossible
  · intro s l t hinv harmed hpossible hrun _
    obtain ⟨_, hrun', hinv', -⟩ := hinv.perform harmed hpossible
    exact Except.ok.inj (hrun'.symm.trans hrun) ▸ hinv'
  · intro s l hinv harmed hpossible
    obtain ⟨t, hrun, -, hiff⟩ := hinv.perform harmed hpossible
    rw [hrun]
    exact hiff

/-- One fiber waits and is notified, after the timer has run out once. -/
theorem armed_iff_lone_oneWaiter :
    AllStates (attempt perform) (Live Armed) (.ok (init : State Nat))
      [.wait 1 8 0, .advance (2 ^ 32), .timers (.listOverTimeCallback (2 ^ 32) 16), .notify (some 1)] := by
  refine (armed_iff_lone ?_).mpr ?_
  · rw [allSteps_cons, allSteps_cons, allSteps_cons, allSteps_cons]
    refine ⟨⟨?_, Nat.le_refl 0⟩, Nat.zero_le _, ⟨?_, ?_, ?_⟩, List.mem_singleton.mpr rfl, allSteps_nil⟩
    · change ∀ id ∈ ([] : List Nat), _
      decide
    · change ∀ id ∈ [0], _
      decide
    · rintro now ⟨⟩
      exact Nat.le_refl _
    · rintro id ⟨⟩
  · rw [allSteps_cons, allSteps_cons, allSteps_cons, allSteps_cons]
    exact ⟨trivial, trivial, trivial, Nat.le_refl 1, allSteps_nil⟩

/-- Two fibers wait, and one of them is notified. -/
def twoWaiters : List (Label Nat) := [.wait 1 8 0, .wait 2 16 0, .notify (some 1)]

theorem not_armed_twoWaiters :
    AllSteps (attempt perform) (WhenLive Possible) (.ok (init : State Nat)) twoWaiters ∧
      ¬ AllStates (attempt perform) (Live Armed) (.ok (init : State Nat)) twoWaiters := by
  constructor
  · rw [twoWaiters, allSteps_cons, allSteps_cons, allSteps_cons]
    refine ⟨⟨?_, Nat.le_refl 0⟩, ⟨?_, Nat.le_refl 0⟩, ?_, allSteps_nil⟩
    · change ∀ id ∈ ([] : List Nat), _
      decide
    · change ∀ id ∈ [0], _
      decide
    · change 1 ∈ [2, 1]
      decide
  · intro h
    obtain ⟨s, hrun, harmed⟩ := live_iff.mp (h twoWaiters List.prefix_rfl)
    have hlast : (run (attempt perform) (.ok (init : State Nat)) twoWaiters).map
        (fun s => (s.waitQueue, s.timer)) = .ok ([2], none) := rfl
    rw [hrun] at hlast
    obtain ⟨hqueue, htimer⟩ := Prod.mk.inj (Except.ok.inj hlast)
    obtain ⟨⟨id, hid, -⟩, -⟩ := harmed (by rw [hqueue]; exact List.cons_ne_nil 2 [])
    rw [htimer] at hid
    cases hid

end State

end KeepAlive

end AsyncRPC
