import Mathlib.Data.List.Forall2

/-!
# Insertion into standard containers

A container is the list of its elements in iteration order. A sequence takes a new element at its
end, an ordered container at its place under a comparison, and a hashed one at a place of the
library's choosing, which is a parameter. The place may depend on how often the container was used
before, hence the number.
-/

namespace Emplace

/-- Where a hashed container puts a new element. -/
structure HashOrder where
  place : Nat → {α : Type} → α → List α → List α
  perm : ∀ n {α : Type} (x : α) xs, (place n x xs).Perm (x :: xs)

/-- The newest element first. -/
def HashOrder.newestFirst : HashOrder where
  place _ _ x xs := x :: xs
  perm _ _ x xs := List.Perm.refl (x :: xs)

section Ordered

variable {α : Type*} (lt : α → α → Bool)

/-- At the lower bound, unless an equivalent element is there. -/
def unique (x : α) : List α → List α
  | [] => [x]
  | y :: ys =>
      if lt y x then y :: unique x ys
      else if lt x y then x :: y :: ys
      else y :: ys

/-- At the upper bound. -/
def multi (x : α) : List α → List α
  | [] => [x]
  | y :: ys => if lt x y then x :: y :: ys else y :: multi x ys

variable {lt} {x : α} {ys : List α}

theorem unique_eq_append (h : ∀ y ∈ ys, lt y x = true) : unique lt x ys = ys ++ [x] := by
  induction ys with
  | nil => rfl
  | cons y ys ih =>
      rw [unique, if_pos (h y List.mem_cons_self), ih fun z hz => h z (List.mem_cons_of_mem y hz)]
      rfl

theorem multi_eq_append (h : ∀ y ∈ ys, lt x y = false) : multi lt x ys = ys ++ [x] := by
  induction ys with
  | nil => rfl
  | cons y ys ih =>
      rw [multi, if_neg (Bool.eq_false_iff.mp (h y List.mem_cons_self)),
        ih fun z hz => h z (List.mem_cons_of_mem y hz)]
      rfl

theorem multi_perm (lt : α → α → Bool) (x : α) (ys : List α) :
    (multi lt x ys).Perm (x :: ys) := by
  induction ys with
  | nil => exact List.Perm.refl _
  | cons y ys ih =>
      rw [multi]
      split
      · exact List.Perm.refl _
      · calc (y :: multi lt x ys).Perm (y :: x :: ys) := ih.cons y
          List.Perm _ (x :: y :: ys) := List.Perm.swap x y ys

end Ordered

/-- How a container takes a new element. -/
inductive Discipline
  | append
  | unique
  | multi
  | hashedUnique
  | hashedMulti
  deriving Repr, DecidableEq

namespace Discipline

/-- The order of the elements is the container's own and not part of its value. -/
def hashed : Discipline → Bool
  | .hashedUnique | .hashedMulti => true
  | _ => false

/-- Elements are compared when one is inserted. -/
def ordered : Discipline → Bool
  | .unique | .multi => true
  | _ => false

section

variable {α : Type} (order : HashOrder) (lt eq : α → α → Bool)

def emplace (n : Nat) (x : α) (xs : List α) : Discipline → List α
  | .append => xs ++ [x]
  | .unique => Emplace.unique lt x xs
  | .multi => Emplace.multi lt x xs
  | .hashedUnique => if xs.any (eq x) then xs else order.place n x xs
  | .hashedMulti => order.place n x xs

/-- What the container keeps of its elements. -/
def Kept (xs : List α) : Discipline → Prop
  | .unique => xs.Pairwise fun a b => lt a b = true
  | .multi => xs.Pairwise fun a b => lt b a = false
  | .hashedUnique => xs.Pairwise fun a b => eq b a = false
  | .append | .hashedMulti => True

/-- Equal element by element up to `R`, for a hashed container in some order. -/
def Same (R : α → α → Prop) (xs ys : List α) (d : Discipline) : Prop :=
  if d.hashed then ∃ zs, List.Forall₂ R xs zs ∧ zs.Perm ys else List.Forall₂ R xs ys

end

section

variable {α : Type} {order : HashOrder} {lt eq : α → α → Bool} {R : α → α → Prop}
variable {d : Discipline} {n : Nat} {xs ys : List α} {x x' : α}

theorem exists_mem_of_forall₂ {y' : α} (h : List.Forall₂ R xs ys) (hy' : y' ∈ ys) :
    ∃ y ∈ xs, R y y' := by
  obtain ⟨i, hi, rfl⟩ := List.getElem_of_mem hy'
  have hi' : i < xs.length := h.length_eq ▸ hi
  exact ⟨xs[i], List.getElem_mem hi', h.get hi' hi⟩

theorem place_perm {zs : List α} (h : zs.Perm ys) : (zs ++ [x]).Perm (order.place n x ys) := by
  calc (zs ++ [x]).Perm (x :: zs) := List.perm_append_singleton x zs
    List.Perm _ (x :: ys) := h.cons x
    List.Perm _ (order.place n x ys) := (order.perm n x ys).symm

theorem same_nil : d.Same R ([] : List α) [] := by
  rw [Same]
  split
  · exact ⟨[], List.Forall₂.nil, List.Perm.refl _⟩
  · exact List.Forall₂.nil

theorem Same.forall₂ (hd : d.hashed = false) (h : d.Same R xs ys) : List.Forall₂ R xs ys := by
  rwa [Same, hd] at h

theorem Same.eq_nil (h : d.Same R ([] : List α) ys) : ys = [] := by
  rw [Same] at h
  split at h
  · obtain ⟨zs, hzs, hperm⟩ := h
    cases hzs
    exact hperm.symm.eq_nil
  · cases h
    rfl

theorem Same.singleton (h : d.Same R [x] [x']) : R x x' := by
  rw [Same] at h
  split at h
  · obtain ⟨zs, hzs, hperm⟩ := h
    rw [List.perm_singleton] at hperm
    subst hperm
    cases hzs with
    | cons hx _ => exact hx
  · cases h with
    | cons hx _ => exact hx

theorem Kept.of_append (h : d.Kept lt eq (xs ++ ys)) : d.Kept lt eq xs := by
  cases d with
  | append => trivial
  | unique => exact (List.pairwise_append.mp h).1
  | multi => exact (List.pairwise_append.mp h).1
  | hashedUnique => exact (List.pairwise_append.mp h).1
  | hashedMulti => trivial

theorem kept_nil : d.Kept lt eq ([] : List α) := by
  cases d with
  | append => trivial
  | unique => exact List.Pairwise.nil
  | multi => exact List.Pairwise.nil
  | hashedUnique => exact List.Pairwise.nil
  | hashedMulti => trivial

theorem kept_singleton : d.Kept lt eq [x] := by
  cases d with
  | append => trivial
  | unique => exact List.pairwise_singleton _ x
  | multi => exact List.pairwise_singleton _ x
  | hashedUnique => exact List.pairwise_singleton _ x
  | hashedMulti => trivial

theorem emplace_nil : d.emplace order lt eq n x [] = [x] := by
  cases d with
  | append => rfl
  | unique => rfl
  | multi => rfl
  | hashedUnique => exact List.perm_singleton.mp (order.perm n x [])
  | hashedMulti => exact List.perm_singleton.mp (order.perm n x [])

/-- Inserting the elements of a container one by one, each up to `R`, builds it up again. `R` must
not be seen by the comparisons the discipline makes. -/
theorem Same.emplace (h : d.Same R xs ys) (hkept : d.Kept lt eq (xs ++ [x]))
    (hcompat : d ≠ .append → ∀ a a' b b', R a a' → R b b' → lt a b = lt a' b' ∧ eq a b = eq a' b')
    (hx : R x x') : d.Same R (xs ++ [x]) (d.emplace order lt eq n x' ys) := by
  have hlast : List.Forall₂ R [x] [x'] := List.Forall₂.cons hx List.Forall₂.nil
  cases d with
  | append => exact List.rel_append h hlast
  | unique =>
      have hbound : ∀ y' ∈ ys, lt y' x' = true := by
        intro y' hy'
        obtain ⟨y, hy, hrel⟩ := exists_mem_of_forall₂ h hy'
        rw [← (hcompat (by decide) y y' x x' hrel hx).1]
        exact (List.pairwise_append.mp hkept).2.2 y hy x (List.mem_singleton_self x)
      change List.Forall₂ R _ (Emplace.unique lt x' ys)
      rw [unique_eq_append hbound]
      exact List.rel_append h hlast
  | multi =>
      have hbound : ∀ y' ∈ ys, lt x' y' = false := by
        intro y' hy'
        obtain ⟨y, hy, hrel⟩ := exists_mem_of_forall₂ h hy'
        rw [← (hcompat (by decide) x x' y y' hx hrel).1]
        exact (List.pairwise_append.mp hkept).2.2 y hy x (List.mem_singleton_self x)
      change List.Forall₂ R _ (Emplace.multi lt x' ys)
      rw [multi_eq_append hbound]
      exact List.rel_append h hlast
  | hashedUnique =>
      obtain ⟨zs, hzs, hperm⟩ := h
      have hnew : ys.any (eq x') = false := by
        rw [List.any_eq_false]
        intro y' hy'
        obtain ⟨y, hy, hrel⟩ := exists_mem_of_forall₂ hzs (hperm.mem_iff.mpr hy')
        rw [← (hcompat (by decide) x x' y y' hx hrel).2]
        exact Bool.eq_false_iff.mp
          ((List.pairwise_append.mp hkept).2.2 y hy x (List.mem_singleton_self x))
      change Same R _ (if ys.any (eq x') then ys else order.place n x' ys) .hashedUnique
      rw [hnew]
      exact ⟨zs ++ [x'], List.rel_append hzs hlast, place_perm hperm⟩
  | hashedMulti =>
      obtain ⟨zs, hzs, hperm⟩ := h
      exact ⟨zs ++ [x'], List.rel_append hzs hlast, place_perm hperm⟩

end

end Discipline

end Emplace
