import Mathlib.Data.List.Basic
import Mathlib.Order.Lattice

/-!
# Ordered sets

A set kept in the order of a comparison, as the list of its elements in the order of iteration. The
operations search from the front; on a sorted list that is where a search tree finds its place too.
The comparison may look at data that its elements share with others. What such a set needs is that
the key of an element stays as it is while the element is in the set.
-/

namespace OrderedSet

variable {α κ : Type}

section Operations

variable (less : α → α → Bool)

/-- An element equivalent to one of the set is not inserted. -/
def insert (x : α) : List α → List α
  | [] => [x]
  | y :: ys => if less x y then x :: y :: ys else if less y x then y :: insert x ys else y :: ys

/-- The place of the element equivalent to `x`. -/
def find (x : α) : List α → Option Nat
  | [] => none
  | y :: ys => if less y x then (find x ys).map (· + 1) else if less x y then none else some 0

/-- The place of the first element above. -/
def upperBound (above : α → Bool) (xs : List α) : Nat := xs.findIdx above

end Operations

variable [LinearOrder κ] {less : α → α → Bool} {key : α → κ} {xs : List α} {x y : α}

def Sorted (key : α → κ) (xs : List α) : Prop := xs.Pairwise fun x y => key x < key y

/-- The comparison compares keys. -/
def Orders (less : α → α → Bool) (key : α → κ) : Prop := ∀ x y, less x y = true ↔ key x < key y

theorem Sorted.nodup (h : Sorted key xs) : xs.Nodup :=
  h.imp fun hlt heq => absurd (heq ▸ hlt) (lt_irrefl _)

theorem Sorted.sublist {ys : List α} (h : Sorted key xs) (hsub : ys.Sublist xs) : Sorted key ys :=
  List.Pairwise.sublist hsub h

/-- Only the keys of the elements matter. -/
theorem Sorted.congr {key' : α → κ} (h : Sorted key xs) (hkey : ∀ x ∈ xs, key' x = key x) :
    Sorted key' xs := by
  refine List.Pairwise.imp_of_mem ?_ h
  intro x y hx hy hlt
  rwa [hkey x hx, hkey y hy]

section Insert

theorem mem_of_mem_insert (h : y ∈ insert less x xs) : y = x ∨ y ∈ xs := by
  induction xs with
  | nil => exact Or.inl (List.mem_singleton.mp h)
  | cons z zs ih =>
      rw [insert] at h
      split at h
      · exact List.mem_cons.mp h
      · split at h
        · rcases List.mem_cons.mp h with rfl | hmem
          · exact Or.inr List.mem_cons_self
          · exact (ih hmem).imp_right (List.mem_cons_of_mem z)
        · exact Or.inr h

theorem mem_insert_of_mem (h : y ∈ xs) : y ∈ insert less x xs := by
  induction xs with
  | nil => cases h
  | cons z zs ih =>
      rw [insert]
      split
      · exact List.mem_cons_of_mem x h
      · split
        · rcases List.mem_cons.mp h with rfl | hmem
          · exact List.mem_cons_self
          · exact List.mem_cons_of_mem z (ih hmem)
        · exact h

theorem mem_insert_self (hless : Orders less key) (hfresh : ∀ y ∈ xs, key y ≠ key x) :
    x ∈ insert less x xs := by
  induction xs with
  | nil => exact List.mem_singleton.mpr rfl
  | cons z zs ih =>
      rw [insert]
      split
      · exact List.mem_cons_self
      · next hnot =>
        have hge : ¬ key x < key z := fun hlt => hnot ((hless x z).mpr hlt)
        have hlt : key z < key x :=
          lt_of_le_of_ne (not_lt.mp hge) (hfresh z List.mem_cons_self)
        rw [if_pos ((hless z x).mpr hlt)]
        exact List.mem_cons_of_mem z (ih fun y hy => hfresh y (List.mem_cons_of_mem z hy))

theorem mem_insert (hless : Orders less key) (hfresh : ∀ y ∈ xs, key y ≠ key x) :
    y ∈ insert less x xs ↔ y = x ∨ y ∈ xs := by
  constructor
  · exact mem_of_mem_insert
  · rintro (rfl | hmem)
    · exact mem_insert_self hless hfresh
    · exact mem_insert_of_mem hmem

theorem Sorted.insert (hless : Orders less key) (h : Sorted key xs) (x : α) :
    Sorted key (OrderedSet.insert less x xs) := by
  induction xs with
  | nil => exact List.pairwise_singleton _ x
  | cons z zs ih =>
      obtain ⟨hhead, htail⟩ := List.pairwise_cons.mp h
      rw [OrderedSet.insert]
      split
      · next hbefore =>
        have hxz := (hless x z).mp hbefore
        refine List.pairwise_cons.mpr ⟨fun y hy => ?_, h⟩
        rcases List.mem_cons.mp hy with rfl | hmem
        · exact hxz
        · exact lt_trans hxz (hhead y hmem)
      · split
        · next hafter =>
          refine List.pairwise_cons.mpr ⟨fun y hy => ?_, ih htail⟩
          rcases mem_of_mem_insert hy with rfl | hmem
          · exact (hless z y).mp hafter
          · exact hhead y hmem
        · exact h

end Insert

/-- A search for an element ends at its place. -/
theorem Sorted.find (hless : Orders less key) (h : Sorted key xs) (hx : x ∈ xs) :
    ∃ i, OrderedSet.find less x xs = some i ∧ xs[i]? = some x := by
  induction xs with
  | nil => cases hx
  | cons z zs ih =>
      obtain ⟨hhead, htail⟩ := List.pairwise_cons.mp h
      rcases List.mem_cons.mp hx with rfl | hmem
      · have hself : ¬ less x x = true := fun hlt => lt_irrefl _ ((hless x x).mp hlt)
        exact ⟨0, by rw [OrderedSet.find, if_neg hself, if_neg hself], rfl⟩
      · obtain ⟨i, hfind, hat⟩ := ih htail hmem
        refine ⟨i + 1, ?_, hat⟩
        rw [OrderedSet.find, if_pos ((hless z x).mpr (hhead x hmem)), hfind]
        rfl

/-- An element that is taken out of the set leaves all others in it. -/
theorem mem_eraseIdx (hxs : xs.Nodup) {i : Nat} (hx : xs[i]? = some x) :
    y ∈ xs.eraseIdx i ↔ y ∈ xs ∧ y ≠ x := by
  rw [List.mem_eraseIdx_iff_getElem?]
  constructor
  · rintro ⟨j, hji, hy⟩
    refine ⟨List.mem_of_getElem? hy, ?_⟩
    rintro rfl
    have hi := (List.getElem?_eq_some_iff.mp hx).1
    exact hji ((List.getElem?_inj hi hxs).mp (hx.trans hy.symm)).symm
  · rintro ⟨hy, hne⟩
    obtain ⟨j, hj⟩ := List.mem_iff_getElem?.mp hy
    refine ⟨j, ?_, hj⟩
    rintro rfl
    exact hne (Option.some.inj (hj.symm.trans hx))

/-- Nothing before the first element above is above. -/
theorem not_above_of_mem_take {above : α → Bool} (h : x ∈ xs.take (upperBound above xs)) :
    above x = false := by
  obtain ⟨i, hi⟩ := List.mem_iff_getElem?.mp h
  have hlt : i < upperBound above xs := by
    by_contra hge
    rw [List.getElem?_take_eq_none (Nat.le_of_not_lt hge)] at hi
    cases hi
  rw [List.getElem?_take_of_lt hlt] at hi
  obtain ⟨hlength, rfl⟩ := List.getElem?_eq_some_iff.mp hi
  exact List.not_of_lt_findIdx hlt

/-- Where what is above stays above to the end of the set, all that is not comes before. -/
theorem Sorted.mem_take_upperBound (h : Sorted key xs) {above : α → Bool}
    (hup : ∀ x y, key x < key y → above x = true → above y = true) :
    x ∈ xs.take (upperBound above xs) ↔ x ∈ xs ∧ above x = false := by
  constructor
  · intro hmem
    exact ⟨List.mem_of_mem_take hmem, not_above_of_mem_take hmem⟩
  · rintro ⟨hx, hnot⟩
    induction xs with
    | nil => cases hx
    | cons y ys ih =>
        obtain ⟨hhead, htail⟩ := List.pairwise_cons.mp h
        rw [upperBound, List.findIdx_cons]
        cases hy : above y with
        | true =>
            rcases List.mem_cons.mp hx with rfl | hmem
            · rw [hy] at hnot
              cases hnot
            · rw [hup y x (hhead x hmem) hy] at hnot
              cases hnot
        | false =>
            rw [cond_false, List.take_succ_cons]
            rcases List.mem_cons.mp hx with rfl | hmem
            · exact List.mem_cons_self
            · exact List.mem_cons_of_mem y (ih htail hmem)

end OrderedSet
