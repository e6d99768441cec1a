import Mathlib.Data.List.Basic

/-!
# A token with at most one owner

A lock is a flag together with the parties that are owed its release. What matters of it is said
here for any set of parties: whoever owns the token finds the flag set, and nobody else owns it.
-/

namespace Token

variable {Party : Type} {owns owns' : Party → Prop} {taken : Bool} {p : Party}

/-- At most one party owns the token, and only while it is taken. -/
structure Sole (owns : Party → Prop) (taken : Bool) : Prop where
  taken_of_owns : ∀ p, owns p → taken = true
  unique : ∀ p q, owns p → owns q → p = q

theorem Sole.free (h : ∀ p, ¬ owns p) : Sole owns taken :=
  ⟨fun p hp => absurd hp (h p), fun p _ hp => absurd hp (h p)⟩

theorem Sole.mono (h : Sole owns taken) (hsub : ∀ p, owns' p → owns p) : Sole owns' taken :=
  ⟨fun p hp => h.taken_of_owns p (hsub p hp), fun p q hp hq => h.unique p q (hsub p hp) (hsub q hq)⟩

theorem Sole.take (h : Sole owns false) (hsub : ∀ q, q ≠ p → owns' q → owns q) : Sole owns' true := by
  have honly : ∀ q, owns' q → q = p := by
    intro q hq
    by_contra hne
    have htaken := h.taken_of_owns q (hsub q hne hq)
    cases htaken
  exact ⟨fun _ _ => rfl, fun q r hq hr => (honly q hq).trans (honly r hr).symm⟩

theorem Sole.release (h : Sole owns taken) (hp : owns p) (hself : ¬ owns' p)
    (hsub : ∀ q, q ≠ p → owns' q → owns q) : Sole owns' false := by
  apply Sole.free
  intro q hq
  by_cases hne : q = p
  · exact hself (hne ▸ hq)
  · exact hne (h.unique q p (hsub q hne hq) hp)

end Token
