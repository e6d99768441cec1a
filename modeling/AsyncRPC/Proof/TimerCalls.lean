import AsyncRPC.Proof.TimerManager
import Mathlib.Data.List.Perm.Subperm

/-!
# One call on a timer set that is in order

A pass over the set takes what comes before a probe for the present, so among the timers that are due
right now the addresses decide. `reset` moves a timer by less than it says, unless it starts the period
anew.
-/

namespace AsyncRPC

open OrderedSet Transition Word

namespace TimerHistory

theorem inv_of_reached {h : TimerHistory} (hreached : h.Reached) : Inv h := by
  refine hreached.invariant ?_ ?_
  · rintro _ rfl
    exact inv_init
  · rintro h call h' hinv ⟨hpossible, hrun⟩
    obtain ⟨h'', hrun', hinv'⟩ := hinv.perform hpossible
    rw [hrun] at hrun'
    cases hrun'
    exact hinv'

end TimerHistory

namespace TimerManager

variable {m : TimerManager} {id : Nat}

section Pass

variable {curr ptr : Nat} {cb : List (Option Callback)}

theorem mem_expired_iff (hsorted : Sorted m.key m.timers) :
    id ∈ m.expired curr ptr ↔ id ∈ m.timers ∧ m.key id ≤ toLex (curr, ptr) := by
  have habove : ∀ a, (Timer.ofNext curr ptr).less (m.objects a) = true ↔
      toLex (curr, ptr) < m.key a := fun a => less_iff _ _
  rw [expired, hsorted.mem_take_upperBound]
  · rw [← Bool.not_eq_true, habove, not_lt]
  · intro a b hlt ha
    exact (habove b).mpr (((habove a).mp ha).trans hlt)

theorem key_le_iff : m.key id ≤ toLex (curr, ptr) ↔
    (m.objects id).next < curr ∨ (m.objects id).next = curr ∧ (m.objects id).ptr ≤ ptr :=
  Prod.Lex.toLex_le_toLex

theorem nodup_expired (hsorted : Sorted m.key m.timers) : (m.expired curr ptr).Nodup :=
  hsorted.nodup.sublist (List.take_sublist _ _)

theorem pairwise_next_expired (hsorted : Sorted m.key m.timers) :
    (m.expired curr ptr).Pairwise fun a b => (m.objects a).next ≤ (m.objects b).next := by
  refine (hsorted.sublist (List.take_sublist _ _)).imp ?_
  intro a b hlt
  rcases Prod.Lex.toLex_lt_toLex.mp hlt with hnext | ⟨hnext, -⟩
  · exact hnext.le
  · exact hnext.le

theorem Holds.collected (h : Holds m []) (curr ptr : Nat) (cb : List (Option Callback)) :
    (m.listOverTimeCallback curr ptr cb).1
      = cb ++ (m.expired curr ptr).map fun id => (m.objects id).callback :=
  (h.listOverTimeCallback curr ptr cb).2.2.1

/-- A list of all that is due is as long as what has expired only if all that is due has. -/
theorem expired_of_due (hsorted : Sorted m.key m.timers) {ids : List Nat}
    (hdue : ∀ id, id ∈ ids ↔ id ∈ m.timers ∧ (m.objects id).next ≤ curr)
    (hlength : ids.length = (m.expired curr ptr).length) (hid : id ∈ ids) :
    id ∈ m.expired curr ptr := by
  have hsubset : m.expired curr ptr ⊆ ids := by
    intro a ha
    exact (hdue a).mpr ⟨List.mem_of_mem_take ha, next_le_of_mem_expired ha⟩
  have hsubperm := List.subperm_of_subset (nodup_expired hsorted) hsubset
  exact (hsubperm.perm_of_length_le hlength.le).mem_iff.mpr hid

/-- A pass collects just what is due if no timer that is due right now lies behind the probe. -/
theorem collectsDue_iff_probed (h : TimerHistory) (hreached : h.Reached) (curr ptr : Nat)
    (cb : List (Option Callback)) :
    h.manager.CollectsDue curr cb (h.manager.listOverTimeCallback curr ptr cb).1 ↔
      ∀ id ∈ h.manager.timers, (h.manager.objects id).next = curr →
        (h.manager.objects id).ptr ≤ ptr := by
  have hholds := (TimerHistory.inv_of_reached hreached).holds
  generalize h.manager = m at hholds
  have hsorted := hholds.sorted
  rw [hholds.collected]
  constructor
  · rintro ⟨⟨ids, hcollected, -, -, hdue⟩, -⟩ id hid hnow
    have hmap := List.append_cancel_left hcollected
    have hlength : ids.length = (m.expired curr ptr).length := by
      simpa using (congrArg List.length hmap).symm
    have hexpired := expired_of_due hsorted hdue hlength ((hdue id).mpr ⟨hid, hnow.le⟩)
    rcases key_le_iff.mp ((mem_expired_iff hsorted).mp hexpired).2 with hlt | ⟨-, hptr⟩
    · exact absurd hnow hlt.ne
    · exact hptr
  · intro hprobed
    have hmem : ∀ id, id ∈ m.expired curr ptr ↔ id ∈ m.timers ∧ (m.objects id).next ≤ curr := by
      intro id
      rw [mem_expired_iff hsorted, key_le_iff]
      refine and_congr_right fun hid => ?_
      constructor
      · rintro (hlt | ⟨heq, -⟩)
        · exact hlt.le
        · exact heq.le
      · intro hle
        exact hle.lt_or_eq.imp_right fun heq => ⟨heq, hprobed id hid heq⟩
    refine ⟨⟨m.expired curr ptr, rfl, nodup_expired hsorted, pairwise_next_expired hsorted, hmem⟩, ?_⟩
    intro hnext
    rw [List.length_append, List.length_map]
    have hfirst : ∃ id, id ∈ m.timers ∧ (m.objects id).next ≤ curr := by
      rw [getNextTimerTime] at hnext
      cases htimers : m.timers with
      | nil =>
          rw [htimers] at hnext
          cases hnext
      | cons id rest =>
          rw [htimers] at hnext
          refine ⟨id, List.mem_cons_self, ?_⟩
          by_contra hlate
          simp only [if_neg hlate] at hnext
          omega
    obtain ⟨id, hid⟩ := hfirst
    have hpos := List.length_pos_of_mem ((hmem id).mpr hid)
    omega

def oneTimer : TimerManager := init.addTimer 100 0 10 (some 1) false

theorem reached_oneTimer : TimerHistory.Reached { manager := oneTimer, log := [] } := by
  refine .next (.start rfl) (l := .addTimer 100 0 10 (some 1) false) ⟨⟨?_, rfl⟩, rfl⟩
  intro id hid
  cases hid

/-- The probe lies behind the timer. -/
theorem collectsDue_iff_probed_before :
    oneTimer.CollectsDue 10 [] (oneTimer.listOverTimeCallback 10 200 []).1 := by
  refine (collectsDue_iff_probed _ reached_oneTimer 10 200 []).mpr ?_
  change ∀ id ∈ [0], _
  decide

/-- The timer lies behind the probe: the wait for it is over and nothing is collected. -/
theorem not_collectsDue_behind :
    ¬ oneTimer.CollectsDue 10 [] (oneTimer.listOverTimeCallback 10 50 []).1 := by
  intro h
  have hsome := h.prompt (by decide)
  revert hsome
  decide

end Pass

section Reset

variable {ms now : Nat} {fromNow : Bool}

theorem addSize_subSize {a n : Nat} (ha : a < 2 ^ 64) (hn : n < 2 ^ 64) :
    addSize (subSize n a) a = n := by
  unfold addSize subSize
  split <;> omega

/-- The difference of two intervals shows. -/
theorem eq_of_addSize_subSize {a b n : Nat} (ha : a < 2 ^ 64) (hb : b < 2 ^ 64) (hn : n < 2 ^ 64)
    (h : addSize (subSize n a) b = n) : a = b := by
  unfold addSize subSize at h
  split at h <;> omega

theorem reset_early (hms : (m.objects id).ms = ms) (now : Nat) : m.reset id ms false now = (true, m) :=
  if_pos ⟨hms, rfl⟩

theorem reset_unarmed (hlong : ¬ ((m.objects id).ms = ms ∧ fromNow = false))
    (hnone : (m.objects id).callback = none) (now : Nat) :
    m.reset id ms fromNow now = (false, m) := by
  rw [reset, if_neg hlong, hnone]
  rfl

/-- What `reset` does to an armed timer where it does not return early. -/
theorem Holds.reset_armed (h : Holds m []) (hlong : ¬ ((m.objects id).ms = ms ∧ fromNow = false))
    (harmed : (m.objects id).callback.isSome = true) (now : Nat) :
    (m.reset id ms fromNow now).1 = true ∧
      m.MovedTo id ms (addSize (if fromNow then now else subSize (m.objects id).next ms) ms)
        (m.reset id ms fromNow now).2 := by
  have hafter := (h.reset id ms fromNow now).1
  obtain ⟨it, hfind, -⟩ := h.erase (h.mem_timers harmed)
  have hreset : m.reset id ms fromNow now = (true, (((m.erase it).setMs id ms).setNext id
      (addSize (if fromNow then now else subSize (m.objects id).next ms) ms)).insert id) := by
    have hsome : ¬ (m.objects id).callback.isNone = true := by
      rw [Option.isNone_iff_eq_none]
      exact Option.isSome_iff_ne_none.mp harmed
    rw [TimerManager.reset, if_neg hlong, if_neg hsome, hfind]
    rfl
  have hobject : (m.reset id ms fromNow now).2.objects id = { m.objects id with
      ms := ms, next := addSize (if fromNow then now else subSize (m.objects id).next ms) ms } := by
    rw [hreset]
    change Function.update (Function.update m.objects id _) id _ id = _
    rw [Function.update_self, TimerManager.setMs, setObject_self]
    rfl
  have hcallback : ∀ a, ((m.reset id ms fromNow now).2.objects a).callback
      = (m.objects a).callback := by
    intro a
    by_cases ha : a = id
    · rw [ha, hobject]
    · rw [reset_of_ne ha]
  have hmem : ∀ a, a ∈ (m.reset id ms fromNow now).2.timers ↔ a ∈ m.timers := by
    intro a
    have hnew := hafter.armed a
    rw [hcallback, h.armed a] at hnew
    simpa using hnew.symm
  refine ⟨by rw [hreset], hobject, fun other hne => reset_of_ne hne ms fromNow now, hmem, ?_, ?_⟩
  · exact (hmem id).mpr (h.mem_timers harmed)
  · exact hafter.sorted.imp fun hlt => (orders_less _ _ _).mpr hlt

/-- `reset` does what it says if it starts the period now, and else only with the old interval on an
armed timer, or a new one on a timer that is done. -/
theorem resets_iff_same (h : TimerHistory) (hreached : h.Reached) (id ms : Nat) (fromNow : Bool)
    (now : Nat) (hrange : (h.manager.objects id).ms < 2 ^ 64 ∧ (h.manager.objects id).next < 2 ^ 64)
    (hms : ms < 2 ^ 64) :
    h.manager.Resets id ms fromNow now ↔ fromNow = true ∨
      ((h.manager.objects id).callback.isSome = true ↔ (h.manager.objects id).ms = ms) := by
  have hholds := (TimerHistory.inv_of_reached hreached).holds
  generalize h.manager = m at hholds hrange
  obtain ⟨hold, hnext⟩ := hrange
  unfold Resets
  dsimp only
  cases harmed : (m.objects id).callback.isSome with
  | true =>
      rw [if_pos rfl]
      cases fromNow with
      | true => exact iff_of_true (hholds.reset_armed (by simp) harmed now) (Or.inl rfl)
      | false =>
          by_cases hsame : (m.objects id).ms = ms
          · refine iff_of_true ?_ (Or.inr (iff_of_true rfl hsame))
            rw [reset_early hsame]
            refine ⟨rfl, ?_, fun _ _ => rfl, fun _ => Iff.rfl, hholds.mem_timers harmed, ?_⟩
            · subst hsame
              change m.objects id = { m.objects id with
                next := addSize (subSize (m.objects id).next (m.objects id).ms) (m.objects id).ms }
              rw [addSize_subSize hold hnext]
            · exact hholds.sorted.imp fun hlt => (m.orders_less _ _).mpr hlt
          · refine iff_of_false ?_ (by simp [hsame])
            rintro ⟨-, hmoved⟩
            -- the code takes off what it then puts on
            have hlong : ¬ ((m.objects id).ms = ms ∧ false = false) := fun hboth => hsame hboth.1
            have hcode := (hholds.reset_armed hlong harmed now).2.object
            rw [hmoved.object] at hcode
            have hdeadline := congrArg Timer.next hcode
            simp only [Bool.false_eq_true, if_false, addSize_subSize hms hnext] at hdeadline
            exact hsame (eq_of_addSize_subSize hold hms hnext hdeadline)
  | false =>
      have hnone : (m.objects id).callback = none := by simpa using harmed
      rw [if_neg Bool.false_ne_true]
      cases fromNow with
      | true => exact iff_of_true (reset_unarmed (by simp) hnone now) (Or.inl rfl)
      | false =>
          by_cases hsame : (m.objects id).ms = ms
          · refine iff_of_false ?_ (by simp [hsame])
            rw [reset_early hsame]
            intro heq
            cases congrArg Prod.fst heq
          · refine iff_of_true (reset_unarmed (fun hboth => hsame hboth.1) hnone now) ?_
            exact Or.inr (iff_of_false Bool.false_ne_true hsame)

/-- A period that starts now. -/
theorem resets_iff_same_fromNow : oneTimer.Resets 0 5 true 3 :=
  (resets_iff_same _ reached_oneTimer 0 5 true 3 (by decide) (by decide)).mpr (Or.inl rfl)

/-- A shorter interval leaves the deadline at 10 instead of 5, and a timer that has run out is said to be
reset if the interval is its own. -/
theorem not_resets_shorter : ¬ oneTimer.Resets 0 5 false 3 ∧
    ¬ (oneTimer.listOverTimeCallback 11 200 []).2.Resets 0 10 false 12 := by
  constructor
  · rintro ⟨-, hmoved⟩
    have hdeadline := congrArg Timer.next hmoved.object
    revert hdeadline
    decide
  · intro h
    have hanswer := congrArg Prod.fst h
    revert hanswer
    decide

end Reset

end TimerManager

end AsyncRPC
