import AsyncRPC.RouteStrategy
import Mathlib.Data.Int.CardIntervalMod

/-!
# Polling goes round

From a non-negative index on, calls on lists of one size use consecutive positions modulo the size, as
long as an `int` can hold it.
-/

namespace AsyncRPC.Polling

open Word

variable {index : Int} {size n : Nat} {sizes : List Nat}

theorem wrap_nonneg (h : 0 ≤ index) (size : Nat) : 0 ≤ wrap index size := by
  rw [wrap]
  split
  · exact Int.le_refl 0
  · exact h

theorem wrap_nonneg_iff : 0 ≤ wrap index size ↔ 0 ≤ index ∨ intOfSize size ≤ index := by
  rw [wrap]
  split
  · next hwraps => exact iff_of_true (Int.le_refl 0) (Or.inr hwraps)
  · next hbelow => exact ⟨Or.inl, fun h => h.resolve_right hbelow⟩

/-- An `int` is at most `2 ^ 31 - 1`. -/
theorem intOfSize_lt (size : Nat) : intOfSize size < 2 ^ 31 := by
  unfold intOfSize
  have hlt := @Int.bmod_lt (size : Int) (2 ^ 32) (by decide)
  omega

theorem wrap_lt (index : Int) (size : Nat) : wrap index size = 0 ∨ wrap index size < intOfSize size := by
  rw [wrap]
  split
  · exact Or.inl rfl
  · next hbelow => exact Or.inr (Int.not_le.mp hbelow)

theorem wrap_lt_size (hsize : 0 < size) (index : Int) : wrap index size < size := by
  rcases wrap_lt index size with hzero | hlt
  · rw [hzero]
    exact Int.natCast_pos.mpr hsize
  · exact hlt.trans_le (intOfSize_le size)

theorem after_append (index : Int) (before rest : List Nat) :
    after index (before ++ rest) = after (after index before) rest := List.foldl_append

theorem after_cons (index : Int) (size : Nat) (sizes : List Nat) :
    after index (size :: sizes) = after (wrap index size + 1) sizes := rfl

theorem after_nonneg (h : 0 ≤ index) (sizes : List Nat) : 0 ≤ after index sizes := by
  induction sizes generalizing index with
  | nil => exact h
  | cons size sizes ih => exact ih (Int.add_nonneg (wrap_nonneg h size) Int.one_nonneg)

/-- Once it has been set to 0, the index is never negative again. -/
theorem after_nonneg_of_wrapped (h : Wrapped index sizes) : 0 ≤ after index sizes := by
  obtain ⟨before, size, rest, rfl, hwraps⟩ := h
  rw [after_append, after_cons]
  exact after_nonneg (Int.add_nonneg (wrap_nonneg_iff.mpr (Or.inr hwraps)) Int.one_nonneg) rest

theorem inRange_iff (hsizes : ∀ size ∈ sizes, 0 < size) :
    InRange index sizes ↔ StartsInRange index sizes := by
  constructor
  · rintro h size rest rfl
    exact wrap_nonneg_iff.mp (h [] size rest rfl).1
  · rintro h before size rest rfl
    refine ⟨?_, wrap_lt_size (hsizes size (by simp)) _⟩
    cases before with
    | nil => exact wrap_nonneg_iff.mpr (h size rest rfl)
    | cons first before =>
        have hfirst := wrap_nonneg_iff.mpr (h first (before ++ size :: rest) rfl)
        exact wrap_nonneg (after_nonneg (Int.add_nonneg hfirst Int.one_nonneg) before) size

/-- Calls on lists of one size, from the position the first of them uses. -/
theorem used_replicate (hn : 0 < n) (hfits : n < 2 ^ 31) (hindex : 0 ≤ index) (m : Nat) :
    ∃ start, used index (List.replicate m n)
      = (List.range m).map fun j => (((start + j) % n : Nat) : Int) := by
  have hint : intOfSize n = n := intOfSize_eq_self_iff.mpr hfits
  -- the invariant: the next call uses `start % n`
  suffices hrun : ∀ (m start : Nat) (index : Int), wrap index n = ((start % n : Nat) : Int) →
      used index (List.replicate m n) = (List.range m).map fun j => (((start + j) % n : Nat) : Int) by
    refine ⟨(wrap index n).toNat, hrun m _ index ?_⟩
    have hlt := wrap_lt_size hn index
    have hnonneg := wrap_nonneg hindex n
    rw [Nat.mod_eq_of_lt (by omega), Int.toNat_of_nonneg hnonneg]
  intro m
  induction m with
  | zero => exact fun _ _ _ => rfl
  | succ m ih =>
      intro start index hwrap
      have hstart : start % n < n := Nat.mod_lt start hn
      have hnext : wrap (wrap index n + 1) n = (((start + 1) % n : Nat) : Int) := by
        rw [hwrap, wrap, hint]
        rcases Nat.lt_or_ge (start % n + 1) n with hlt | hge
        · rw [if_neg (by omega), Nat.add_mod, Nat.mod_eq_of_lt (show 1 < n by omega),
            Nat.mod_eq_of_lt hlt]
          rfl
        · have hround : (start + 1) % n = 0 := by
            rw [← Nat.mod_add_mod, show start % n + 1 = n by omega, Nat.mod_self]
          rw [if_pos (by omega), hround]
          rfl
      have hshift : (fun j => (((start + 1 + j) % n : Nat) : Int))
          = (fun j => (((start + j) % n : Nat) : Int)) ∘ Nat.succ := by
        funext j
        rw [Function.comp_apply, Nat.succ_eq_add_one, Nat.add_assoc, Nat.add_comm 1 j]
      rw [List.replicate_succ, used, ih (start + 1) _ hnext, hwrap, List.range_succ_eq_map,
        List.map_cons, List.map_map, hshift]
      rfl

theorem count_map_range (f : Nat → Int) (p : Int) (m : Nat) :
    ((List.range m).map f).count p = Nat.count (fun j => f j = p) m := by
  induction m with
  | zero => simp
  | succ m ih =>
      rw [List.range_succ, List.map_append, List.count_append, ih, Nat.count_succ]
      by_cases h : f m = p
      · simp [h]
      · simp [h]

/-- In `n * k` numbers in a row each remainder comes up `k` times. -/
theorem count_mod (hn : 0 < n) (start k : Nat) {p : Nat} (hp : p < n) :
    Nat.count (fun j => (start + j) % n = p) (n * k) = k := by
  have hcongr : ∀ j, (start + j) % n = p ↔ j ≡ p + (n - start % n) [MOD n] := by
    intro j
    have hstart := Nat.mod_lt start hn
    constructor
    · rintro rfl
      apply Nat.ModEq.symm
      calc (start + j) % n + (n - start % n)
          ≡ start % n + j + (n - start % n) [MOD n] := by
            apply Nat.ModEq.add_right
            exact (Nat.mod_modEq _ n).trans ((Nat.mod_modEq start n).symm.add_right j)
        _ = j + n := by omega
        _ ≡ j [MOD n] := Nat.add_mod_right j n
    · intro h
      have hsum : start + j ≡ p [MOD n] := by
        calc start + j ≡ start % n + (p + (n - start % n)) [MOD n] :=
              ((Nat.mod_modEq start n).symm).add h
          _ = p + n := by omega
          _ ≡ p [MOD n] := Nat.add_mod_right p n
      exact Eq.trans hsum (Nat.mod_eq_of_lt hp)
  simp only [hcongr]
  rw [Nat.count_modEq_card _ hn, Nat.mul_div_cancel_left k hn, Nat.mul_mod_right,
    if_neg (Nat.not_lt_zero _), Nat.add_zero]

/-- The last position of a list too long for an `int` is never used. -/
theorem last_not_used (hlong : 2 ^ 31 ≤ n) (m : Nat) (index : Int) :
    ((n - 1 : Nat) : Int) ∉ used index (List.replicate m n) := by
  induction m generalizing index with
  | zero => exact List.not_mem_nil
  | succ m ih =>
      rw [List.replicate_succ, used, List.mem_cons, not_or]
      refine ⟨?_, ih _⟩
      have hint := intOfSize_lt n
      rcases wrap_lt index n with hzero | hlt
      · rw [hzero]
        omega
      · omega

theorem even_iff : Even index sizes ↔ FitsInt index sizes := by
  constructor
  · intro h before n k rest hsizes hwrapped hk
    by_contra hlong
    have hlong' : 2 ^ 31 ≤ n := Nat.le_of_not_lt hlong
    have hlast := h before n k rest hsizes hwrapped (n - 1) (by omega)
    rw [List.count_eq_zero.mpr (last_not_used hlong' _ _)] at hlast
    omega
  · intro h before n k rest hsizes hwrapped p hp
    rcases Nat.eq_zero_or_pos k with rfl | hk
    · rfl
    · have hn : 0 < n := Nat.zero_lt_of_lt hp
      obtain ⟨start, hused⟩ := used_replicate hn (h before n k rest hsizes hwrapped hk)
        (after_nonneg_of_wrapped hwrapped) (n * k)
      rw [hused, count_map_range]
      simp only [Int.natCast_inj]
      exact count_mod hn start k hp

/-- On non-empty lists every index used is in the list and positions are used evenly just if `index_`
starts in range and no list that calls go round is too long for an `int`. -/
theorem inRange_and_even_iff (index : Int) (sizes : List Nat) (hsizes : ∀ size ∈ sizes, 0 < size) :
    InRange index sizes ∧ Even index sizes ↔ StartsInRange index sizes ∧ FitsInt index sizes :=
  and_congr (inRange_iff hsizes) even_iff

/-- An object whose index starts at 0 goes round a list of two. -/
theorem inRange_and_even_iff_zero :
    InRange 0 [2, 2, 2, 2, 2] ∧ Even 0 [2, 2, 2, 2, 2] := by
  refine (inRange_and_even_iff 0 [2, 2, 2, 2, 2] (by decide)).mpr ⟨?_, ?_⟩
  · exact fun _ _ _ => Or.inl (Int.le_refl 0)
  · rintro before n k rest hsizes - hk
    rcases Nat.eq_zero_or_pos n with rfl | hn
    · decide
    · have hmem : n ∈ [2, 2, 2, 2, 2] := by
        rw [hsizes]
        exact List.mem_append_right before
          (List.mem_append_left rest (List.mem_replicate.mpr ⟨(Nat.mul_pos hn hk).ne', rfl⟩))
      have htwo : n = 2 := by simpa using hmem
      rw [htwo]
      decide

/-- What was in memory is taken for an index. -/
theorem not_inRange_garbage :
    ¬ (InRange (-1) [3] ∧ Even (-1) [3]) ∧ (select (-1) [10, 11, 12]).1 = none := by
  refine ⟨?_, by decide⟩
  rintro ⟨h, -⟩
  exact absurd (h [] 3 [] rfl).1 (by decide)

end AsyncRPC.Polling
