import Mathlib.Logic.Basic

/-!
# Computations that may fail

A sequence of fallible steps succeeds just if each of them does.
-/

namespace Outcome

variable {ε α β : Type}

theorem bind_eq_ok {x : Except ε α} {f : α → Except ε β} {b : β} :
    (x >>= f) = .ok b ↔ ∃ a, x = .ok a ∧ f a = .ok b := by
  cases x with
  | error e =>
      refine iff_of_false ?_ ?_
      · intro h
        cases h
      · rintro ⟨a, h, -⟩
        cases h
  | ok a =>
      constructor
      · intro h
        exact ⟨a, rfl, h⟩
      · rintro ⟨_, ha, h⟩
        cases ha
        exact h

theorem bind_eq_error {x : Except ε α} {f : α → Except ε β} {e : ε} :
    (x >>= f) = .error e ↔ x = .error e ∨ ∃ a, x = .ok a ∧ f a = .error e := by
  cases x with
  | error e' =>
      constructor
      · intro h
        exact Or.inl (congrArg Except.error (Except.error.inj h))
      · rintro (h | ⟨a, h, -⟩)
        · exact congrArg Except.error (Except.error.inj h)
        · cases h
  | ok a =>
      constructor
      · intro h
        exact Or.inr ⟨a, rfl, h⟩
      · rintro (h | ⟨_, ha, h⟩)
        · cases h
        · cases ha
          exact h

theorem map_eq_ok {x : Except ε α} {f : α → β} {b : β} :
    f <$> x = .ok b ↔ ∃ a, x = .ok a ∧ f a = b := by
  cases x with
  | error e =>
      refine iff_of_false ?_ ?_
      · intro h
        cases h
      · rintro ⟨a, h, -⟩
        cases h
  | ok a =>
      constructor
      · intro h
        exact ⟨a, rfl, Except.ok.inj h⟩
      · rintro ⟨_, ha, rfl⟩
        cases ha
        rfl

theorem mapError_eq_ok {ε' : Type} {x : Except ε α} {f : ε → ε'} {a : α} :
    x.mapError f = .ok a ↔ x = .ok a := by
  cases x with
  | error e =>
      refine iff_of_false ?_ ?_
      · intro h
        cases h
      · intro h
        cases h
  | ok b =>
      constructor
      · intro h
        exact congrArg Except.ok (Except.ok.inj h)
      · intro h
        exact congrArg Except.ok (Except.ok.inj h)

theorem mapError_eq_error {ε' : Type} {x : Except ε α} {f : ε → ε'} {e' : ε'}
    (h : x.mapError f = .error e') : ∃ e, f e = e' := by
  cases x with
  | error e => exact ⟨e, Except.error.inj h⟩
  | ok a => cases h

/-- A loop that fails does so in some round, after rounds that succeed. -/
theorem foldlM_eq_error {xs : List β} {f : α → β → Except ε α} {a : α} {e : ε}
    (h : xs.foldlM f a = .error e) :
    ∃ before x b, before ++ [x] <+: xs ∧ before.foldlM f a = .ok b ∧ f b x = .error e := by
  induction xs generalizing a with
  | nil => cases h
  | cons y xs ih =>
      rw [List.foldlM_cons] at h
      rcases bind_eq_error.mp h with hfirst | ⟨b, hb, hrest⟩
      · exact ⟨[], y, a, ⟨xs, rfl⟩, rfl, hfirst⟩
      · obtain ⟨before, x, b', hbegins, hrun, hlast⟩ := ih hrest
        refine ⟨y :: before, x, b', (List.prefix_cons_inj y).mpr hbegins, ?_, hlast⟩
        rw [List.foldlM_cons, hb]
        exact hrun

theorem toOption_eq_some {r : Except ε α} {a : α} : r.toOption = some a ↔ r = .ok a := by
  cases r with
  | error e => simp [Except.toOption]
  | ok b => simp [Except.toOption]

/-- The result of a computation that did not fail, and what is made of it. -/
theorem map_toOption_eq_some {r : Except ε α} {g : α → β} {b : β}
    (h : r.toOption.map g = some b) : ∃ a, r = .ok a ∧ g a = b := by
  obtain ⟨a, ha, hg⟩ := Option.map_eq_some_iff.mp h
  exact ⟨a, toOption_eq_some.mp ha, hg⟩

end Outcome
