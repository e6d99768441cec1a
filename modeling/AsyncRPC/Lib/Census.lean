import Mathlib.Data.Fintype.Card

/-!
# A census

Finitely many parties, each in a phase of its own. How many are in a phase that counts changes by one
when a party enters such a phase or leaves it.
-/

namespace Census

variable {Party Phase : Type} [Fintype Party] [DecidableEq Party] {counts : Phase → Bool}
  {phase : Party → Phase} {p : Party} {x : Phase}

/-- How many parties are in a phase that counts. -/
def census (counts : Phase → Bool) (phase : Party → Phase) : Nat :=
  (Finset.univ.filter fun p => counts (phase p) = true).card

omit [DecidableEq Party] in
theorem census_eq_zero (h : ∀ p, counts (phase p) = false) : census counts phase = 0 := by
  rw [census, Finset.card_eq_zero, Finset.filter_eq_empty_iff]
  intro p _
  simp [h p]

omit [DecidableEq Party] in
theorem census_pos (h : counts (phase p) = true) : 0 < census counts phase :=
  Finset.card_pos.mpr ⟨p, Finset.mem_filter.mpr ⟨Finset.mem_univ p, h⟩⟩

theorem census_same (h : counts x = counts (phase p)) :
    census counts (Function.update phase p x) = census counts phase := by
  have hphases : ∀ q, counts (Function.update phase p x q) = counts (phase q) := by
    intro q
    by_cases hq : q = p
    · rw [hq, Function.update_self, h]
    · rw [Function.update_of_ne hq]
  simp only [census, hphases]

theorem census_enter (hold : counts (phase p) = false) (hnew : counts x = true) :
    census counts (Function.update phase p x) = census counts phase + 1 := by
  have hinsert : (Finset.univ.filter fun q => counts (Function.update phase p x q) = true)
      = insert p (Finset.univ.filter fun q => counts (phase q) = true) := by
    ext q
    by_cases hq : q = p
    · simp [hq, hnew]
    · simp [hq]
  rw [census, hinsert, Finset.card_insert_of_notMem, census]
  simp [hold]

theorem census_leave (hold : counts (phase p) = true) (hnew : counts x = false) :
    census counts (Function.update phase p x) + 1 = census counts phase := by
  have hback : phase = Function.update (Function.update phase p x) p (phase p) := by simp
  have henter : census counts phase = census counts (Function.update phase p x) + 1 := by
    conv_lhs => rw [hback]
    apply census_enter _ hold
    rw [Function.update_self, hnew]
  exact henter.symm

end Census
