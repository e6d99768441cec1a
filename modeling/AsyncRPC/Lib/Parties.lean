import Mathlib.Logic.Function.Basic

/-!
# One of many parties moves on

Each party is at a place of its own, and a step takes one of them to a new place. What is said of every
party after the step is said of the one that moved at its new place, and of the others where they were.
-/

namespace Parties

variable {Party Place α : Type} [DecidableEq Party] {pc : Party → Place} {p q : Party}
  {new : Place}

theorem cases_update (Says : Place → Prop) (h : Says (Function.update pc p new q)) :
    (q = p ∧ Says new) ∨ (q ≠ p ∧ Says (pc q)) := by
  by_cases hq : q = p
  · subst hq
    rw [Function.update_self] at h
    exact Or.inl ⟨rfl, h⟩
  · rw [Function.update_of_ne hq] at h
    exact Or.inr ⟨hq, h⟩

/-- What the party that moved takes on it had before. -/
theorem of_update (Says : Place → Prop) (hself : Says new → Says (pc p))
    (h : Says (Function.update pc p new q)) : Says (pc q) := by
  rcases cases_update Says h with ⟨rfl, hnew⟩ | ⟨-, hold⟩
  · exact hself hnew
  · exact hold

/-- The party that moved does not take it on. -/
theorem of_update_not (Says : Place → Prop) (hnew : ¬ Says new)
    (h : Says (Function.update pc p new q)) : q ≠ p ∧ Says (pc q) := by
  rcases cases_update Says h with ⟨-, hsays⟩ | hold
  · exact absurd hsays hnew
  · exact hold

/-- What the move leaves as it is. -/
theorem get_update (get : Place → α) (hsame : get new = get (pc p)) (q : Party) :
    get (Function.update pc p new q) = get (pc q) := by
  rw [Function.apply_update fun _ => get, hsame, Function.update_eq_self]

end Parties
