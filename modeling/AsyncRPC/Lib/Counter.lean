import Mathlib.Algebra.Order.Group.Int
import Mathlib.Data.List.Perm.Basic
import Mathlib.Tactic.Linarith

/-!
# A counter that stops at zero

A list of flags drives a counter: `true` takes one away, unless there is none, and `false` adds one.
What is left depends on the flags only through how many more were `true` at the end and at most on
the way.
-/

namespace Counter

/-- The counter after a list of flags. -/
def drain (m : Nat) (flags : List Bool) : Nat :=
  flags.foldl (fun m flag => if flag then m - 1 else m + 1) m

def sign : Bool → Int
  | true => 1
  | false => -1

/-- How many more flags are `true` than `false`. -/
def net : List Bool → Int
  | [] => 0
  | flag :: flags => sign flag + net flags

/-- The most that `net` reaches on an initial part of the list. -/
def peak : List Bool → Int
  | [] => 0
  | flag :: flags => max 0 (sign flag + peak flags)

theorem peak_nonneg (flags : List Bool) : 0 ≤ peak flags := by
  cases flags with
  | nil => exact le_refl 0
  | cons flag flags => exact le_max_left 0 _

/-- The counter loses what is taken in the end, but what it did not have is made up first. -/
theorem drain_eq (m : Nat) (flags : List Bool) :
    (drain m flags : Int) = max (m : Int) (peak flags) - net flags := by
  induction flags generalizing m with
  | nil => simp [drain, peak, net]
  | cons flag flags ih =>
      have hpeak := peak_nonneg flags
      cases flag with
      | true =>
          have hstep : drain m (true :: flags) = drain (m - 1) flags := rfl
          rw [hstep, ih, net, peak, sign]
          omega
      | false =>
          have hstep : drain m (false :: flags) = drain (m + 1) flags := rfl
          rw [hstep, ih, net, peak, sign]
          omega

section Marked

variable {α : Type} [DecidableEq α]

def flagsOf (a : α) (marks : List (Bool × α)) : List Bool :=
  (marks.filter fun x => x.2 = a).map Prod.fst

theorem flagsOf_cons (a : α) (x : Bool × α) (marks : List (Bool × α)) :
    flagsOf a (x :: marks) = if x.2 = a then x.1 :: flagsOf a marks else flagsOf a marks := by
  by_cases h : x.2 = a
  · simp [flagsOf, h]
  · simp [flagsOf, h]

end Marked

end Counter
