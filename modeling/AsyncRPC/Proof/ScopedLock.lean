import AsyncRPC.ScopedLock
import Mathlib.Data.List.Induction

/-!
# Acquisitions and releases of a ScopedLock

Up to the destructor `lock_` is exactly the lead of the acquisitions over the releases. The destructor
releases once more without looking at it.
-/

namespace AsyncRPC

namespace MutexCall

variable {issued : List MutexCall}

/-- The acquisitions lead the releases by one while the mutex is held, and are level with them while it
is not, and the releases have never been ahead. -/
structure Led (issued : List MutexCall) (held : Bool) : Prop where
  lead : acquisitions issued = releases issued + held.toNat
  notAhead : ∀ before, before <+: issued → releases before ≤ acquisitions before

theorem acquisitions_concat (issued : List MutexCall) (c : MutexCall) :
    acquisitions (issued ++ [c]) = acquisitions issued + c.acquires.toNat := by
  rw [acquisitions, List.countP_append, List.countP_singleton]
  cases c.acquires <;> rfl

theorem releases_concat (issued : List MutexCall) (c : MutexCall) :
    releases (issued ++ [c]) = releases issued + if c = .unlock then 1 else 0 := by
  rw [releases, List.count_append, List.count_singleton]
  simp only [beq_iff_eq, releases]

theorem Led.concat {held held' : Bool} (h : Led issued held) {c : MutexCall}
    (hlead : held.toNat + c.acquires.toNat = held'.toNat + if c = .unlock then 1 else 0) :
    Led (issued ++ [c]) held' := by
  have hlast : acquisitions (issued ++ [c]) = releases (issued ++ [c]) + held'.toNat := by
    rw [acquisitions_concat, releases_concat, h.lead]
    omega
  refine ⟨hlast, ?_⟩
  intro before hbefore
  rcases List.prefix_concat_iff.mp hbefore with rfl | hshorter
  · omega
  · exact h.notAhead before hshorter

theorem Led.balanced_iff {held : Bool} (h : Led issued held) : Balanced issued ↔ held = false := by
  constructor
  · intro hbalanced
    have hequal := hbalanced.equal
    have hlead := h.lead
    cases held with
    | false => rfl
    | true =>
        rw [Bool.toNat_true] at hlead
        omega
  · rintro rfl
    exact ⟨h.lead.symm, h.notAhead⟩

end MutexCall

namespace ScopedLock

open MutexCall

variable {s : ScopedLock}

theorem led_nil : Led [] false where
  lead := rfl
  notAhead := by
    intro before hbefore
    rw [List.prefix_nil.mp hbefore]
    exact le_rfl

theorem led_construct : Led construct.issued construct.lock_ :=
  led_nil.concat (c := .lock) rfl

/-- The step lemma: a call keeps `lock_` in step with the calls on the mutex. -/
theorem led_perform (h : Led s.issued s.lock_) (c : Call) :
    Led (s.perform c).issued (s.perform c).lock_ := by
  obtain ⟨held, issued⟩ := s
  cases c with
  | lock =>
      cases held with
      | false => exact h.concat rfl
      | true => exact h
  | unlock =>
      cases held with
      | false => exact h
      | true => exact h.concat rfl
  | trylock answer =>
      cases held with
      | false => exact h.concat (by cases answer <;> rfl)
      | true => exact h

theorem led_foldl (calls : List Call) : Led (calls.foldl perform construct).issued
    (calls.foldl perform construct).lock_ := by
  induction calls using List.reverseRecOn with
  | nil => exact led_construct
  | append_singleton calls c ih =>
      rw [List.foldl_concat]
      exact led_perform ih c

theorem relocked_nil : Relocked [] := by
  intro before after hsplit
  simp at hsplit

theorem relocked_concat (calls : List Call) (c : Call) : Relocked (calls ++ [c]) ↔
    c = .lock ∨ c = .trylock true ∨ (c ≠ .unlock ∧ Relocked calls) := by
  constructor
  · intro h
    by_cases hlock : c = .lock
    · exact Or.inl hlock
    · by_cases hgranted : c = .trylock true
      · exact Or.inr (Or.inl hgranted)
      · refine Or.inr (Or.inr ⟨?_, ?_⟩)
        · rintro rfl
          simpa using h calls [] rfl
        · rintro before after rfl
          have hlater := h before (after ++ [c]) (by simp)
          simpa [Ne.symm hlock, Ne.symm hgranted] using hlater
  · intro h before after hsplit
    rcases List.eq_nil_or_concat' after with rfl | ⟨after, last, rfl⟩
    · -- the release comes last
      obtain ⟨-, hlast⟩ := List.append_inj' hsplit rfl
      obtain rfl : c = .unlock := List.head_eq_of_cons_eq hlast
      simp at h
    · rw [← List.cons_append, ← List.append_assoc] at hsplit
      obtain ⟨hcalls, hlast⟩ := List.append_inj' hsplit rfl
      obtain rfl : c = last := List.head_eq_of_cons_eq hlast
      rcases h with rfl | rfl | ⟨-, hrelocked⟩
      · simp
      · simp
      · rcases hrelocked before after hcalls with hlock | hgranted
        · exact Or.inl (List.mem_append_left _ hlock)
        · exact Or.inr (List.mem_append_left _ hgranted)

/-- The lock is held at the end just if it has been taken again after every release. -/
theorem lock_iff_relocked (calls : List Call) :
    (calls.foldl perform construct).lock_ = true ↔ Relocked calls := by
  induction calls using List.reverseRecOn with
  | nil => exact iff_of_true rfl relocked_nil
  | append_singleton calls c ih =>
      rw [List.foldl_concat, relocked_concat, ← ih]
      generalize calls.foldl perform construct = s
      obtain ⟨held, issued⟩ := s
      cases c with
      | lock => cases held <;> simp [perform, lock]
      | unlock => cases held <;> simp [perform, unlock]
      | trylock answer => cases held <;> cases answer <;> simp [perform, trylock]

/-- Over the whole life of a `ScopedLock` the mutex is released as often as it is acquired, and never
ahead of that, just if the lock has been taken again after every `unlock()`. -/
theorem balanced_iff_relocked (calls : List Call) : Balanced (life calls) ↔ Relocked calls := by
  have hled := led_foldl calls
  rw [← lock_iff_relocked, life, destruct]
  constructor
  · intro hbalanced
    have hequal := hbalanced.equal
    rw [releases_concat, acquisitions_concat, hled.lead, if_pos rfl] at hequal
    cases hheld : (calls.foldl perform construct).lock_ with
    | true => rfl
    | false =>
        rw [hheld] at hequal
        simp [acquires] at hequal
  · intro hheld
    rw [hheld] at hled
    have hlevel : Led ((calls.foldl perform construct).issued ++ [.unlock]) false := hled.concat rfl
    exact hlevel.balanced_iff.mpr rfl

/-- A lock that is released by hand before it goes out of scope releases its mutex twice. -/
theorem not_balanced_unlocked : ¬ Balanced (life [.unlock]) := by
  intro h
  have hequal := h.equal
  revert hequal
  decide

end ScopedLock

end AsyncRPC
