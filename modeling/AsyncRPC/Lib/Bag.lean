import Mathlib.Data.List.Perm.Basic

/-!
# Lists as multisets

Which elements a list keeps, when only its elements and their number count.
-/

namespace Bag

variable {α β κ : Type}

/-- Two selections from a list, one of them by the image alone, have the same images just if they
select the same elements. -/
theorem perm_map_filter_iff {xs : List α} {g : α → β} {p : β → Bool} {q : α → Bool} :
    ((xs.filter fun x => p (g x)).map g).Perm ((xs.filter q).map g) ↔ ∀ x ∈ xs, p (g x) = q x := by
  constructor
  · intro h
    have himp : ∀ x ∈ xs, q x = true → p (g x) = true := by
      intro x hx hq
      have hmem : g x ∈ (xs.filter q).map g := List.mem_map_of_mem (List.mem_filter.mpr ⟨hx, hq⟩)
      obtain ⟨y, hy, hyx⟩ := List.mem_map.mp (h.mem_iff.mpr hmem)
      rw [← hyx]
      exact (List.mem_filter.mp hy).2
    -- the one selection is within the other and as long
    have hfilter : (xs.filter fun x => p (g x)).filter q = xs.filter q := by
      rw [List.filter_filter]
      apply List.filter_congr
      intro x hx
      cases hq : q x with
      | false => rfl
      | true => rw [himp x hx hq, Bool.and_true]
    have hsub : (xs.filter q).Sublist (xs.filter fun x => p (g x)) :=
      hfilter ▸ List.filter_sublist
    have hlength := h.length_eq
    rw [List.length_map, List.length_map] at hlength
    have heq := hsub.eq_of_length hlength.symm
    intro x hx
    apply Bool.eq_iff_iff.mpr
    constructor
    · intro hp
      have hmem : x ∈ xs.filter q := heq ▸ List.mem_filter.mpr ⟨hx, hp⟩
      exact (List.mem_filter.mp hmem).2
    · exact himp x hx
  · intro h
    rw [List.filter_congr h]

section Keys

variable [DecidableEq κ] {key : α → κ} {xs : List α}

theorem eraseP_eq_filter (h : (xs.map key).Nodup) (k : κ) :
    (xs.eraseP fun x => key x = k) = xs.filter fun x => !decide (key x = k) := by
  induction xs with
  | nil => rfl
  | cons x xs ih =>
      rw [List.map_cons, List.nodup_cons] at h
      by_cases hx : key x = k
      · have hrest : ∀ y ∈ xs, (!decide (key y = k)) = true := by
          intro y hy
          rw [Bool.not_eq_true', decide_eq_false_iff_not]
          intro hyk
          exact h.1 (hx.trans hyk.symm ▸ List.mem_map_of_mem hy)
        rw [List.eraseP_cons_of_pos (by simp [hx]), List.filter_cons_of_neg (by simp [hx])]
        exact (List.filter_eq_self.mpr hrest).symm
      · rw [List.eraseP_cons_of_neg (by simp [hx]), List.filter_cons_of_pos (by simp [hx]), ih h.2]

omit [DecidableEq κ] in
theorem nodup_map_filter (h : (xs.map key).Nodup) (p : α → Bool) : ((xs.filter p).map key).Nodup :=
  h.sublist (List.filter_sublist.map key)

end Keys

end Bag
