import AsyncRPC.KeepAlive
import AsyncRPC.Lib.Outcome
import AsyncRPC.Proof.TimerManager

/-!
# What a call leaves of the timers of others

The owner of a timer finds it as it was after any call that somebody else makes, as long as no pass has
collected it.
-/

namespace AsyncRPC

open Word

namespace TimerManager

variable {m m' : TimerManager} {id : Nat}

theorem cancel_callback {answer : Bool} (hcancel : m.cancel id = .ok (answer, m')) :
    (m'.objects id).callback = none ∧ (m'.objects id).next = (m.objects id).next := by
  have hdrop : (m.dropCallback id).objects id = { m.objects id with callback := none } :=
    setObject_self _
  unfold cancel at hcancel
  split at hcancel
  · dsimp only at hcancel
    split at hcancel
    · cases hcancel
    · cases hcancel
      change ((m.dropCallback id).objects id).callback = none ∧ ((m.dropCallback id).objects id).next = _
      rw [hdrop]
      exact ⟨rfl, rfl⟩
  · next hnone =>
    cases hcancel
    exact ⟨by simpa using hnone, rfl⟩

/-- The deadline of a one-shot timer stays when it is collected. -/
theorem settle_next (curr head : Nat) (honce : (m.objects id).recurring = false) :
    ((m.settle curr head).objects id).next = (m.objects id).next := by
  by_cases heq : id = head
  · subst heq
    have hdrop : (m.dropCallback id).objects id = { m.objects id with callback := none } :=
      setObject_self _
    unfold settle
    rw [if_neg (by rw [honce]; exact Bool.false_ne_true), hdrop]
  · rw [settle_of_ne heq]

theorem settleAll_next (curr : Nat) (expired : List Nat) (cb : List (Option Callback))
    (hid : id < m.made) (honce : (m.objects id).recurring = false) :
    ((settleAll curr expired cb m).2.objects id).next = (m.objects id).next := by
  induction expired generalizing m cb with
  | nil => rfl
  | cons head rest ih =>
      have hfollows := follows_settle m curr head
      rw [settleAll, ih (cb ++ [(m.objects head).callback]) (hid.trans_le hfollows.made_le)
        ((hfollows.recurring_eq id hid).trans honce), settle_next curr head honce]

theorem listOverTimeCallback_next (curr ptr : Nat) (cb : List (Option Callback)) (hid : id < m.made)
    (honce : (m.objects id).recurring = false) :
    ((m.listOverTimeCallback curr ptr cb).2.objects id).next = (m.objects id).next := by
  unfold listOverTimeCallback
  split
  · rfl
  · exact @settleAll_next { m with timers := m.timers.drop (m.expired curr ptr).length } id curr _ cb hid
      honce

/-- The loop leaves the timers alone that have not expired. -/
theorem settleAll_of_not_mem {curr : Nat} {expired : List Nat} (hid : id ∉ expired)
    (cb : List (Option Callback)) : (settleAll curr expired cb m).2.objects id = m.objects id := by
  induction expired generalizing m cb with
  | nil => rfl
  | cons head rest ih =>
      have hrest : id ∉ rest := fun hin => hid (List.mem_cons_of_mem head hin)
      rw [settleAll, ih hrest, settle_of_ne (List.ne_of_not_mem_cons hid)]

theorem listOverTimeCallback_of_not_mem {curr ptr : Nat} (hid : id ∉ m.expired curr ptr)
    (cb : List (Option Callback)) :
    (m.listOverTimeCallback curr ptr cb).2.objects id = m.objects id := by
  unfold listOverTimeCallback
  split
  · rfl
  · exact settleAll_of_not_mem hid cb

/-- `refresh` moves the deadline or leaves it. -/
theorem refresh_next (m : TimerManager) (id now : Nat) :
    ((m.refresh id now).2.objects id).next = (m.objects id).next ∨
      ((m.refresh id now).2.objects id).next = addSize now (m.objects id).ms := by
  unfold refresh
  split
  · exact Or.inl rfl
  · split
    · exact Or.inl rfl
    · next it _ =>
      refine Or.inr ?_
      change (((m.erase it).setObject id _).objects id).next = _
      rw [setObject_self]
      rfl

/-- `reset` leaves a timer alone that is done, or that has the interval and is to keep its start. -/
theorem reset_of_keeps {ms now : Nat} {fromNow : Bool}
    (hkeeps : (m.objects id).ms = ms ∧ fromNow = false ∨ (m.objects id).callback = none) :
    (m.reset id ms fromNow now).2 = m := by
  unfold reset
  split
  · rfl
  · next hnot =>
    rw [if_pos]
    rw [hkeeps.resolve_left hnot]
    rfl

/-- No timer in the set is due before the first. -/
theorem Holds.next_head_le (h : Holds m []) {first : Nat} (hfirst : m.timers.head? = some first)
    (hid : id ∈ m.timers) : (m.objects first).next ≤ (m.objects id).next := by
  have hsorted := h.sorted
  obtain ⟨rest, htimers⟩ := List.head?_eq_some_iff.mp hfirst
  rw [htimers] at hid hsorted
  rcases List.mem_cons.mp hid with rfl | hrest
  · exact le_rfl
  · have hlt := (List.pairwise_cons.mp hsorted).1 id hrest
    exact (Prod.Lex.toLex_lt_toLex.mp hlt).elim Nat.le_of_lt fun heq => heq.1.le

theorem getNextTimerTime_of_head {first : Nat} (hfirst : m.timers.head? = some first) (curr : Nat) :
    m.getNextTimerTime curr = (m.objects first).next - curr := by
  obtain ⟨rest, htimers⟩ := List.head?_eq_some_iff.mp hfirst
  rw [getNextTimerTime, htimers]
  dsimp only
  split
  · next hdue => exact (Nat.sub_eq_zero_of_le hdue).symm
  · rfl

theorem exists_head (hid : id ∈ m.timers) : ∃ first, m.timers.head? = some first :=
  Option.ne_none_iff_exists'.mp fun hnone => List.ne_nil_of_mem hid (List.head?_eq_none_iff.mp hnone)

/-- The next timer is not behind any that is in the set. -/
theorem Holds.getNextTimerTime_le (h : Holds m []) (hid : id ∈ m.timers) (curr : Nat) :
    m.getNextTimerTime curr ≤ (m.objects id).next - curr := by
  obtain ⟨first, hfirst⟩ := exists_head hid
  rw [getNextTimerTime_of_head hfirst]
  exact Nat.sub_le_sub_right (h.next_head_le hfirst hid) curr

end TimerManager

namespace TimerHistory

variable {h h' : TimerHistory} {call : TimerCall}

theorem perform_cancel_eq_ok {id : Nat} (hrun : h.perform (.cancel id) = .ok h') :
    ∃ answer, h.manager.cancel id = .ok (answer, h'.manager) ∧ ∃ new, h'.log = h.log ++ new := by
  rw [perform] at hrun
  obtain ⟨⟨answer, manager⟩, hcancel, hlast⟩ := Outcome.bind_eq_ok.mp hrun
  cases hlast
  refine ⟨answer, hcancel, ?_⟩
  cases answer with
  | true => exact ⟨_, rfl⟩
  | false => exact ⟨[], (List.append_nil _).symm⟩

/-- What a possible call does to the timers and to what is known of them; only `refresh` and `reset`
move the deadline of a one-shot timer. -/
theorem Inv.performs (hinv : Inv h) (hpossible : h.Possible call) (hrun : h.perform call = .ok h') :
    Inv h' ∧ h.manager.Follows h'.manager ∧ (∃ new, h'.log = h.log ++ new) ∧
      ∀ id < h.manager.made, (id ∈ KeepAlive.on call → call = .cancel id) →
        (h.manager.objects id).recurring = false →
          (h'.manager.objects id).next = (h.manager.objects id).next := by
  obtain ⟨h₁, hrun₁, hinv'⟩ := hinv.perform hpossible
  obtain rfl : h₁ = h' := Except.ok.inj (hrun₁.symm.trans hrun)
  refine ⟨hinv', ?_⟩
  cases call with
  | addTimer ptr now ms callback recurring =>
      cases hrun
      obtain ⟨-, hfollows⟩ := @TimerManager.Holds.addTimer h.manager hinv.holds ptr now ms callback
        recurring hpossible.1 hpossible.2
      refine ⟨hfollows, ⟨[], (List.append_nil _).symm⟩, fun id hid _ _ => ?_⟩
      exact congrArg Timer.next (TimerManager.addTimer_of_ne hid.ne ptr now ms callback recurring)
  | cancel id =>
      obtain ⟨answer, hcancel, hlog⟩ := perform_cancel_eq_ok hrun
      obtain ⟨answer', m', hcancel', -, hfollows, -⟩ := hinv.holds.cancel id
      rw [hcancel] at hcancel'
      cases hcancel'
      refine ⟨hfollows, hlog, fun other _ _ _ => ?_⟩
      by_cases hother : other = id
      · rw [hother]
        exact (TimerManager.cancel_callback hcancel).2
      · rw [TimerManager.cancel_of_ne hother hcancel]
  | refresh id now =>
      cases hrun
      refine ⟨(hinv.holds.refresh id now).2, ⟨[], (List.append_nil _).symm⟩, fun other _ hon _ => ?_⟩
      have hne : other ≠ id := by
        rintro rfl
        cases hon rfl
      exact congrArg Timer.next (TimerManager.refresh_of_ne hne now)
  | reset id ms fromNow now =>
      cases hrun
      refine ⟨(hinv.holds.reset id ms fromNow now).2, ⟨[], (List.append_nil _).symm⟩,
        fun other _ hon _ => ?_⟩
      have hne : other ≠ id := by
        rintro rfl
        cases hon rfl
      exact congrArg Timer.next (TimerManager.reset_of_ne hne ms fromNow now)
  | listOverTimeCallback curr ptr =>
      cases hrun
      refine ⟨(hinv.holds.listOverTimeCallback curr ptr []).2.1, ⟨_, rfl⟩, fun id hid _ honce => ?_⟩
      exact TimerManager.listOverTimeCallback_next curr ptr [] hid honce

/-- The timer that a call makes or is made on. -/
def touches (h : TimerHistory) : TimerCall → Option Nat
  | .addTimer _ _ _ _ _ => some h.manager.made
  | .cancel id | .refresh id _ | .reset id _ _ _ => some id
  | .listOverTimeCallback _ _ => none

/-- A call that is no pass leaves all timers alone but one. -/
theorem perform_of_not_touched {id : Nat}
    (hrun : h.perform call = .ok h') (hpass : ∀ curr ptr, call ≠ .listOverTimeCallback curr ptr)
    (hid : id ∉ h.touches call) : h'.manager.objects id = h.manager.objects id := by
  have hne : ∀ target, target ∈ h.touches call → id ≠ target := by
    rintro target htarget rfl
    exact hid htarget
  cases call with
  | addTimer ptr now ms callback recurring =>
      cases hrun
      exact TimerManager.addTimer_of_ne (hne _ rfl) ptr now ms callback recurring
  | cancel target =>
      obtain ⟨⟨answer, m'⟩, hcancel, hlast⟩ := Outcome.bind_eq_ok.mp hrun
      cases hlast
      exact TimerManager.cancel_of_ne (hne target rfl) hcancel
  | refresh target now =>
      cases hrun
      exact TimerManager.refresh_of_ne (hne target rfl) now
  | reset target ms fromNow now =>
      cases hrun
      exact TimerManager.reset_of_ne (hne target rfl) ms fromNow now
  | listOverTimeCallback curr ptr => exact absurd rfl (hpass curr ptr)

theorem perform_of_not_on {id : Nat}
    (hrun : h.perform call = .ok h') (hpass : ∀ curr ptr, call ≠ .listOverTimeCallback curr ptr)
    (hmade : id < h.manager.made) (hon : id ∉ KeepAlive.on call) :
    h'.manager.objects id = h.manager.objects id := by
  apply perform_of_not_touched hrun hpass
  cases call with
  | addTimer ptr now ms callback recurring => exact fun heq => hmade.ne (Option.some.inj heq).symm
  | cancel target | refresh target now | reset target ms fromNow now => exact hon
  | listOverTimeCallback curr ptr => exact fun heq => by cases heq

/-- What a call that is no pass did not touch was in the set before if it is afterwards. -/
theorem Inv.mem_of_not_touched {id : Nat} (hinv : Inv h) (hinv' : Inv h')
    (hrun : h.perform call = .ok h') (hpass : ∀ curr ptr, call ≠ .listOverTimeCallback curr ptr)
    (hnot : id ∉ h.touches call) (hid : id ∈ h'.manager.timers) :
    id ∈ h.manager.timers ∧ (h.manager.objects id).next = (h'.manager.objects id).next := by
  have hsame := perform_of_not_touched hrun hpass hnot
  refine ⟨hinv.holds.mem_timers ?_, by rw [hsame]⟩
  rw [← hsame]
  exact (hinv'.holds.armed id).mpr (Or.inl hid)

end TimerHistory

end AsyncRPC
