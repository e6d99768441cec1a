import Mathlib.Data.Int.Basic
import Mathlib.Tactic.Ring

/-!
# Fixed-width conversions

A `size_t` is a natural number below `2 ^ 64` and an `int` an integer in `[-2 ^ 31, 2 ^ 31)`. Where
the two meet the conversion is modular, so an error result and a large length both change value.
-/

namespace Word

/-- `size_t n = r` for an `int` value `r`. -/
def sizeOfInt (r : Int) : Nat := (r % 2 ^ 64).toNat

/-- `(int) n` for a `size_t` value `n`. -/
def intOfSize (n : Nat) : Int := (n : Int).bmod (2 ^ 32)

/-- `a + b` on `size_t`. -/
def addSize (a b : Nat) : Nat := (a + b) % 2 ^ 64

/-- `a - b` on `size_t`, for operands below `2 ^ 64`. -/
def subSize (a b : Nat) : Nat := if b ≤ a then a - b else 2 ^ 64 + a - b

theorem sizeOfInt_of_nonneg {r : Int} (hr : 0 ≤ r) (hlt : r < 2 ^ 64) : sizeOfInt r = r.toNat := by
  rw [sizeOfInt, Int.emod_eq_of_lt hr hlt]

theorem sizeOfInt_neg_one : sizeOfInt (-1) = 2 ^ 64 - 1 := by decide

@[simp]
theorem sizeOfInt_zero : sizeOfInt 0 = 0 := by decide

@[simp]
theorem intOfSize_zero : intOfSize 0 = 0 := by decide

theorem addSize_of_lt {a b : Nat} (h : a + b < 2 ^ 64) : addSize a b = a + b :=
  Nat.mod_eq_of_lt h

theorem subSize_of_le {a b : Nat} (h : b ≤ a) : subSize a b = a - b := if_pos h

/-- Below `2 ^ 31` a length survives the conversion to `int`, and from there on it does not. -/
theorem intOfSize_eq_self_iff {n : Nat} : intOfSize n = (n : Int) ↔ n < 2 ^ 31 := by
  unfold intOfSize
  have hlt := @Int.bmod_lt (n : Int) (2 ^ 32) (by decide)
  constructor
  · intro h
    rw [h] at hlt
    omega
  · intro h
    rw [Int.bmod_eq_of_le] <;> omega

theorem intOfSize_le (n : Nat) : intOfSize n ≤ (n : Int) := by
  unfold intOfSize
  have hmod : (n : Int) % (2 ^ 32 : Nat) ≤ n := Int.ofNat_le.mpr (Nat.mod_le n _)
  rw [Int.bmod_def]
  split
  · exact hmod
  · omega

/-- Where bit 31 is clear the conversion to `int` keeps the lower half. -/
theorem intOfSize_of_low {n : Nat} (h : n % 2 ^ 32 < 2 ^ 31) : intOfSize n = (n % 2 ^ 32 : Nat) := by
  unfold intOfSize
  rw [Int.bmod_def]
  split <;> omega

/-- Where bit 31 is set the conversion to `int` is negative. -/
theorem intOfSize_of_high {n : Nat} (h : 2 ^ 31 ≤ n % 2 ^ 32) :
    intOfSize n = (n % 2 ^ 32 : Nat) - 2 ^ 32 := by
  unfold intOfSize
  rw [Int.bmod_def]
  split <;> omega

theorem sizeOfInt_of_neg {r : Int} (hneg : r < 0) (hge : -2 ^ 64 ≤ r) :
    sizeOfInt r = (r + 2 ^ 64).toNat := by
  unfold sizeOfInt
  omega

end Word
