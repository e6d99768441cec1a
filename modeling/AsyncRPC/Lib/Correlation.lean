import Mathlib.Logic.Function.Basic

/-!
# Keys in use and the table that resolves them

Parties that are waiting for something each have a key, and a table leads from a key back to its
party. The two agree when either determines the other.
-/

namespace Correlation

variable {Party Key : Type} {key : Party → Option Key} {table : Key → Option Party}
variable {p : Party} {k : Key}

/-- The table holds the parties that have a key, each under its own. -/
def Inverse (key : Party → Option Key) (table : Key → Option Party) : Prop :=
  ∀ p k, table k = some p ↔ key p = some k

theorem Inverse.unique (h : Inverse key table) {q : Party} (hp : key p = some k)
    (hq : key q = some k) : p = q := by
  have htable := (h p k).mpr hp
  rw [(h q k).mpr hq] at htable
  exact (Option.some.inj htable).symm

/-- A key that no party has is not in the table. -/
theorem Inverse.table_eq_none (h : Inverse key table) (hk : ∀ p, key p ≠ some k) :
    table k = none := by
  cases htable : table k with
  | none => rfl
  | some p => exact absurd ((h p k).mp htable) (hk p)

variable [DecidableEq Party] [DecidableEq Key]

theorem Inverse.insert (h : Inverse key table) (hp : key p = none) (hk : ∀ q, key q ≠ some k) :
    Inverse (Function.update key p (some k)) (Function.update table k (some p)) := by
  intro q j
  by_cases hj : j = k
  · subst hj
    rw [Function.update_self]
    by_cases hq : q = p
    · simp [hq]
    · simp [hq, hk q, Ne.symm hq]
  · rw [Function.update_of_ne hj, h q j]
    by_cases hq : q = p
    · simp [hq, hp, Ne.symm hj]
    · simp [hq]

theorem Inverse.remove (h : Inverse key table) (hp : key p = some k) :
    Inverse (Function.update key p none) (Function.update table k none) := by
  intro q j
  by_cases hq : q = p
  · subst hq
    rw [Function.update_self]
    by_cases hj : j = k
    · simp [hj]
    · simp [hj, h q j, hp, Ne.symm hj]
  · rw [Function.update_of_ne hq, ← h q j]
    by_cases hj : j = k
    · subst hj
      have hentry : table j ≠ some q := by
        rw [(h p j).mpr hp]
        exact fun heq => hq (Option.some.inj heq).symm
      simp [hentry]
    · simp [hj]

end Correlation
