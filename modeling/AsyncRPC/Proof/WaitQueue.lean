import AsyncRPC.WaitQueue

/-!
# Whom `notify` wakes

The set holds the waiting fibers in the order of their addresses, so the first of them is the one that
came first just if it has the lowest address.
-/

namespace AsyncRPC.WaitQueue

open Transition OrderedSet

variable {F : Type} [DecidableEq F] {address : F → Nat} {s : State F}

namespace State

/-- The queue is the waiting fibers, sorted by address. -/
structure Inv (address : F → Nat) (s : State F) : Prop where
  sorted : Sorted address s.waitQueue
  perm : s.waitQueue.Perm s.arrived

omit [DecidableEq F] in
theorem orders_less (address : F → Nat) : Orders (less address) address :=
  fun _ _ => decide_eq_true_iff

omit [DecidableEq F] in
theorem inv_init (address : F → Nat) : (init : State F).Inv address :=
  ⟨List.Pairwise.nil, List.Perm.refl []⟩

omit [DecidableEq F] in
theorem Inv.wait (h : s.Inv address) (hinjective : Function.Injective address) {fiber : F}
    (hfresh : fiber ∉ s.arrived) : (s.wait address fiber).Inv address where
  sorted := h.sorted.insert (orders_less address) fiber
  perm := by
    have haddress : ∀ y ∈ s.waitQueue, address y ≠ address fiber := by
      intro y hy heq
      rw [hinjective heq] at hy
      exact hfresh (h.perm.mem_iff.mp hy)
    have hnodup : (s.arrived ++ [fiber]).Nodup := by
      refine List.nodup_append.mpr
        ⟨h.perm.nodup_iff.mp h.sorted.nodup, List.pairwise_singleton _ fiber, ?_⟩
      rintro x hx y hy rfl
      exact hfresh (List.mem_singleton.mp hy ▸ hx)
    have hsorted := h.sorted.insert (orders_less address) fiber
    apply (List.perm_ext_iff_of_nodup hsorted.nodup hnodup).mpr
    intro y
    rw [mem_insert (orders_less address) haddress, h.perm.mem_iff, List.mem_append,
      List.mem_singleton, or_comm]

theorem Inv.notify (h : s.Inv address) : s.notify.Inv address := by
  obtain ⟨waitQueue, arrived, submitted⟩ := s
  obtain ⟨hsorted, hperm⟩ := h
  cases waitQueue with
  | nil => exact ⟨hsorted, hperm⟩
  | cons fiber rest =>
      refine ⟨hsorted.sublist (List.sublist_cons_self fiber rest), ?_⟩
      have herase := hperm.erase fiber
      rwa [List.erase_cons_head] at herase

theorem Inv.step (h : s.Inv address) (hinjective : Function.Injective address) {call : Call F}
    (hpossible : s.Possible call) : (s.step address call).Inv address := by
  cases call with
  | wait fiber => exact h.wait hinjective hpossible
  | notify => exact h.notify
  | notifyAll => exact ⟨List.Pairwise.nil, List.Perm.refl []⟩

/-- The first of the queue is the oldest just if that one is below all the others. -/
theorem Inv.head_eq_iff (h : s.Inv address) {first oldest : F} {others rest : List F}
    (hqueue : s.waitQueue = first :: others) (harrived : s.arrived = oldest :: rest) :
    first = oldest ↔ ∀ fiber ∈ rest, address oldest < address fiber := by
  have hsorted := h.sorted
  rw [hqueue] at hsorted
  obtain ⟨hlowest, -⟩ := List.pairwise_cons.mp hsorted
  have hperm := h.perm
  rw [hqueue, harrived] at hperm
  constructor
  · rintro rfl
    intro fiber hfiber
    exact hlowest fiber ((List.Perm.cons_inv hperm).mem_iff.mpr hfiber)
  · intro hbelow
    by_contra hne
    have hfirst : first ∈ rest :=
      (List.mem_cons.mp (hperm.mem_iff.mp List.mem_cons_self)).resolve_left hne
    have holdest : oldest ∈ others :=
      (List.mem_cons.mp (hperm.mem_iff.mpr List.mem_cons_self)).resolve_left (Ne.symm hne)
    exact lt_asymm (hbelow first hfirst) (hlowest oldest holdest)

theorem Inv.wakesOldest_iff (h : s.Inv address) (call : Call F) :
    s.WakesOldest call ↔ s.OldestIsLowest address call := by
  cases call with
  | wait fiber => exact Iff.rfl
  | notifyAll => exact Iff.rfl
  | notify =>
      cases hqueue : s.waitQueue with
      | nil =>
          have hnone : s.arrived = [] := (hqueue ▸ h.perm).nil_eq.symm
          rw [WakesOldest, OldestIsLowest, hnone]
          exact iff_of_true (fun _ _ hcons => by cases hcons) (fun _ _ hcons => by cases hcons)
      | cons first others =>
          have hsubmitted : s.notify.submitted = s.submitted ++ [first] := by
            rw [State.notify, hqueue]
          rw [WakesOldest, OldestIsLowest, hsubmitted]
          apply forall₃_congr
          intro oldest rest harrived
          rw [List.append_cancel_left_eq, List.singleton_inj]
          exact h.head_eq_iff hqueue harrived

/-- Over any run of waits by distinct fibers and of notifications, every `notify` wakes the fiber that
has been waiting longest just if at every `notify` that fiber has the lowest address. -/
theorem wakesOldest_iff_lowest (hinjective : Function.Injective address) {calls : List (Call F)}
    (hpossible : AllSteps (step address) Possible init calls) :
    AllSteps (step address) WakesOldest init calls ↔
      AllSteps (step address) (OldestIsLowest address) init calls :=
  allSteps_congr (fun _ _ h hl => h.step hinjective hl) (fun _ l h _ => h.wakesOldest_iff l)
    (inv_init address) hpossible

/-- Two fibers that come in the order of their addresses. -/
theorem wakesOldest_iff_lowest_ascending :
    AllSteps (step id) WakesOldest init [.wait 1, .wait 2, .notify, .notify] := by
  refine (wakesOldest_iff_lowest Function.injective_id ?_).mpr ?_
  · simp only [allSteps_cons]
    refine ⟨List.not_mem_nil, ?_, trivial, trivial, allSteps_nil⟩
    change 2 ∉ [1]
    decide
  · simp only [allSteps_cons]
    refine ⟨trivial, trivial, ?_, ?_, allSteps_nil⟩
    · rintro oldest rest harrived
      cases harrived
      decide
    · rintro oldest rest harrived
      cases harrived
      decide

/-- Two fibers, of which the second has the lower address: it is woken first. -/
theorem not_wakesOldest_descending :
    AllSteps (step id) Possible init [.wait 2, .wait 1, .notify] ∧
      ¬ AllSteps (step id) WakesOldest init [.wait 2, .wait 1, .notify] := by
  constructor
  · simp only [allSteps_cons]
    refine ⟨List.not_mem_nil, ?_, trivial, allSteps_nil⟩
    change 1 ∉ [2]
    decide
  · intro h
    have hlast := h [.wait 2, .wait 1] .notify List.prefix_rfl 2 [1] rfl
    exact absurd hlast (by decide)

end State

end AsyncRPC.WaitQueue
