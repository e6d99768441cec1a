import Mathlib.Data.List.Basic
import Mathlib.Tactic.Ring

/-!
# Equal blocks laid end to end

A chain of blocks of one size stands for the list they make up. Reading inside one block reads the
whole list at the block's offset, and overwriting inside one block overwrites the whole list there;
consecutive pieces join up. With these a loop that works block by block can be stated as one
operation on the whole list.
-/

namespace Blocks

variable {α : Type}

/-- `n` elements from `off`. -/
def slice (off n : Nat) (xs : List α) : List α := (xs.drop off).take n

/-- The elements from `off` on replaced by `ys`. -/
def overwrite (off : Nat) (ys xs : List α) : List α :=
  xs.take off ++ ys ++ xs.drop (off + ys.length)

theorem length_slice {off n : Nat} {xs : List α} (h : off + n ≤ xs.length) :
    (slice off n xs).length = n := by
  rw [slice, List.length_take, List.length_drop]
  omega

@[simp]
theorem slice_zero (off : Nat) (xs : List α) : slice off 0 xs = [] := rfl

theorem slice_append_slice (off m n : Nat) (xs : List α) :
    slice off m xs ++ slice (off + m) n xs = slice off (m + n) xs := by
  rw [slice, slice, slice, List.take_add, List.drop_drop]

theorem slice_left {off n : Nat} {xs : List α} (h : off + n ≤ xs.length) (ys : List α) :
    slice off n (xs ++ ys) = slice off n xs := by
  rw [slice, slice, List.drop_append_of_le_length (by omega),
    List.take_append_of_le_length (by rw [List.length_drop]; omega)]

theorem slice_right {off n : Nat} (xs ys : List α) :
    slice (xs.length + off) n (xs ++ ys) = slice off n ys := by
  rw [slice, slice, ← List.drop_drop, List.drop_left]

/-- A slice that runs out of the first list goes on in the second. -/
theorem slice_append {off n : Nat} {xs : List α} (hoff : off ≤ xs.length) (h : xs.length ≤ off + n)
    (ys : List α) :
    slice off n (xs ++ ys) =
      slice off (xs.length - off) xs ++ slice 0 (n - (xs.length - off)) ys := by
  have hlength : (xs.drop off).length = xs.length - off := List.length_drop
  rw [slice, slice, slice, List.drop_append_of_le_length hoff, List.take_append, hlength,
    List.drop_zero, List.take_of_length_le (by omega), ← hlength, List.take_length]

theorem length_overwrite {off : Nat} {ys xs : List α} (h : off + ys.length ≤ xs.length) :
    (overwrite off ys xs).length = xs.length := by
  rw [overwrite, List.length_append, List.length_append, List.length_take, List.length_drop]
  omega

@[simp]
theorem overwrite_nil (off : Nat) (xs : List α) : overwrite off [] xs = xs := by
  simp [overwrite]

theorem overwrite_left {off : Nat} {ys xs : List α} (h : off + ys.length ≤ xs.length)
    (zs : List α) : overwrite off ys (xs ++ zs) = overwrite off ys xs ++ zs := by
  rw [overwrite, overwrite, List.take_append_of_le_length (by omega),
    List.drop_append_of_le_length h]
  simp only [List.append_assoc]

theorem overwrite_right (off : Nat) (ys xs zs : List α) :
    overwrite (xs.length + off) ys (xs ++ zs) = xs ++ overwrite off ys zs := by
  have htake : (xs ++ zs).take (xs.length + off) = xs ++ zs.take off := by
    rw [List.take_append, List.take_of_length_le (by omega), Nat.add_sub_cancel_left]
  rw [overwrite, overwrite, htake, Nat.add_assoc, ← List.drop_drop, List.drop_left]
  simp only [List.append_assoc]

theorem overwrite_overwrite {off : Nat} {ys zs xs : List α}
    (h : off + ys.length + zs.length ≤ xs.length) :
    overwrite (off + ys.length) zs (overwrite off ys xs) = overwrite off (ys ++ zs) xs := by
  have hlength : (xs.take off ++ ys).length = off + ys.length := by
    rw [List.length_append, List.length_take]
    omega
  calc overwrite (off + ys.length) zs (overwrite off ys xs)
      = overwrite ((xs.take off ++ ys).length + 0) zs
          ((xs.take off ++ ys) ++ xs.drop (off + ys.length)) := by
        rw [hlength, Nat.add_zero]
        rfl
    _ = (xs.take off ++ ys) ++ overwrite 0 zs (xs.drop (off + ys.length)) :=
        overwrite_right 0 zs _ _
    _ = overwrite off (ys ++ zs) xs := by
        simp [overwrite, Nat.add_assoc]

theorem take_overwrite {off : Nat} {ys xs : List α} (h : off ≤ xs.length) :
    (overwrite off ys xs).take (off + ys.length) = xs.take off ++ ys := by
  rw [overwrite, List.take_left']
  rw [List.length_append, List.length_take, Nat.min_eq_left h]

theorem slice_overwrite {off : Nat} {ys xs : List α} (h : off ≤ xs.length) :
    slice off ys.length (overwrite off ys xs) = ys := by
  have hlength : (xs.take off).length = off := by rw [List.length_take, Nat.min_eq_left h]
  calc slice off ys.length (overwrite off ys xs)
      = slice ((xs.take off).length + 0) ys.length
          (xs.take off ++ (ys ++ xs.drop (off + ys.length))) := by
        rw [hlength, Nat.add_zero, overwrite, List.append_assoc]
    _ = slice 0 ys.length (ys ++ xs.drop (off + ys.length)) := slice_right _ _
    _ = ys := by
        rw [slice, List.drop_zero, List.take_left]

/-! ### Blocks of one size -/

variable {size : Nat} {blocks : List (List α)}

theorem length_flatten (huniform : ∀ b ∈ blocks, b.length = size) :
    blocks.flatten.length = blocks.length * size := by
  induction blocks with
  | nil => simp
  | cons b blocks ih =>
      have hb := huniform b List.mem_cons_self
      have htail := ih fun c hc => huniform c (List.mem_cons_of_mem b hc)
      rw [List.flatten_cons, List.length_append, htail, hb, List.length_cons]
      ring

theorem slice_flatten (huniform : ∀ b ∈ blocks, b.length = size) {i off n : Nat}
    (hi : i < blocks.length) (hn : off + n ≤ size) :
    slice (i * size + off) n blocks.flatten = slice off n (blocks.getD i []) := by
  induction blocks generalizing i with
  | nil => simp at hi
  | cons b blocks ih =>
      have hb := huniform b List.mem_cons_self
      rw [List.flatten_cons]
      cases i with
      | zero =>
          rw [Nat.zero_mul, Nat.zero_add, slice_left (by omega)]
          rfl
      | succ i =>
          have hplace : (i + 1) * size + off = b.length + (i * size + off) := by
            rw [hb]
            ring
          rw [hplace, slice_right, List.getD_cons_succ]
          exact ih (fun c hc => huniform c (List.mem_cons_of_mem b hc)) (by simpa using hi)

theorem drop_flatten (huniform : ∀ b ∈ blocks, b.length = size) (i : Nat) :
    blocks.flatten.drop (i * size) = (blocks.drop i).flatten := by
  induction blocks generalizing i with
  | nil => rw [List.drop_nil, List.flatten_nil, List.drop_nil]
  | cons b blocks ih =>
      have hb := huniform b List.mem_cons_self
      cases i with
      | zero => rw [Nat.zero_mul, List.drop_zero, List.drop_zero]
      | succ i =>
          have hplace : (i + 1) * size = b.length + i * size := by
            rw [hb]
            ring
          rw [hplace, List.flatten_cons, ← List.drop_drop, List.drop_left, List.drop_succ_cons]
          exact ih (fun c hc => huniform c (List.mem_cons_of_mem b hc)) i

theorem flatten_modify (huniform : ∀ b ∈ blocks, b.length = size) {i off : Nat} {ys : List α}
    (hi : i < blocks.length) (hn : off + ys.length ≤ size) :
    (blocks.modify i (overwrite off ys)).flatten
      = overwrite (i * size + off) ys blocks.flatten := by
  induction blocks generalizing i with
  | nil => simp at hi
  | cons b blocks ih =>
      have hb := huniform b List.mem_cons_self
      cases i with
      | zero =>
          rw [List.modify_zero_cons, List.flatten_cons, List.flatten_cons, Nat.zero_mul,
            Nat.zero_add, overwrite_left (by omega)]
      | succ i =>
          have hplace : (i + 1) * size + off = b.length + (i * size + off) := by
            rw [hb]
            ring
          rw [List.modify_succ_cons, List.flatten_cons, List.flatten_cons, hplace, overwrite_right,
            ih (fun c hc => huniform c (List.mem_cons_of_mem b hc)) (by simpa using hi)]

end Blocks
