import Mathlib.Algebra.BigOperators.Group.Finset.Piecewise
import Mathlib.Data.Fintype.Basic
import Mathlib.Data.List.Infix

/-!
# Interleavings

Several sources put items into one list, each in its own order. The list together with the source of
each item is a log; a source's lane in it is what that source has put in.
-/

namespace Interleaving

variable {ι α : Type} [DecidableEq ι]

def lane (i : ι) (log : List (ι × α)) : List α := (log.filter fun x => x.1 = i).map Prod.snd

/-- `xs` is all that the sources give, each item once and the items of a source in their order. -/
def Merges (given : ι → List α) (xs : List α) : Prop :=
  ∃ log : List (ι × α), log.map Prod.snd = xs ∧ ∀ i, lane i log = given i

/-- `xs` is the same of a first part of what each source gives. -/
def MergesSome (given : ι → List α) (xs : List α) : Prop :=
  ∃ log : List (ι × α), log.map Prod.snd = xs ∧ ∀ i, lane i log <+: given i

theorem lane_append (i : ι) (xs ys : List (ι × α)) : lane i (xs ++ ys) = lane i xs ++ lane i ys := by
  rw [lane, List.filter_append, List.map_append]
  rfl

theorem lane_self (i : ι) (a : α) : lane i [(i, a)] = [a] := by
  simp [lane]

theorem lane_other {i j : ι} (hne : j ≠ i) (a : α) : lane i [(j, a)] = [] := by
  simp [lane, hne]

theorem mem_lane {i : ι} {a : α} {log : List (ι × α)} (h : (i, a) ∈ log) : a ∈ lane i log :=
  List.mem_map_of_mem (f := Prod.snd) (List.mem_filter.mpr ⟨h, decide_eq_true rfl⟩)

theorem lane_cons (i : ι) (x : ι × α) (log : List (ι × α)) :
    lane i (x :: log) = lane i [x] ++ lane i log := lane_append i [x] log

theorem sum_length_lane [Fintype ι] (log : List (ι × α)) :
    ∑ i, (lane i log).length = log.length := by
  induction log with
  | nil => exact Finset.sum_const_zero
  | cons x log ih =>
      have hone : ∑ i, (lane i [x]).length = 1 := by
        rw [Finset.sum_eq_single_of_mem x.1 (Finset.mem_univ _) fun i _ hi => ?_]
        · rw [lane_self x.1 x.2]
          rfl
        · rw [lane_other (Ne.symm hi) x.2]
          rfl
      calc ∑ i, (lane i (x :: log)).length
          = ∑ i, ((lane i [x]).length + (lane i log).length) := by
            simp only [lane_cons _ x log, List.length_append]
        _ = 1 + log.length := by rw [Finset.sum_add_distrib, hone, ih]
        _ = (x :: log).length := Nat.add_comm _ _

end Interleaving
