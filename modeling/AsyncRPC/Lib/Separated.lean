import Mathlib.Data.List.Basic

/-!
# Separated texts

Pieces with a separator between them, and where in such texts two separators stand together.
-/

namespace Separated

variable {α : Type} {sep : α}

/-- Where a separator is found either belongs to the text behind the first one or is the first one. -/
theorem first_or_later {a b t rest : List α} (ht : sep ∉ t) (h : a ++ sep :: b = t ++ sep :: rest) :
    (a = t ∧ b = rest) ∨ ∃ a', a = t ++ sep :: a' ∧ rest = a' ++ sep :: b := by
  rcases List.append_eq_append_iff.mp h with ⟨m, rfl, hm⟩ | ⟨m, rfl, hm⟩
  · cases m with
    | nil =>
        obtain ⟨-, hb⟩ := List.cons_eq_cons.mp hm
        exact Or.inl ⟨(List.append_nil a).symm, hb⟩
    | cons c m =>
        obtain ⟨rfl, -⟩ := List.cons_eq_cons.mp hm
        exact absurd (List.mem_append_right a List.mem_cons_self) ht
  · cases m with
    | nil =>
        obtain ⟨-, hb⟩ := List.cons_eq_cons.mp hm
        exact Or.inl ⟨List.append_nil t, hb.symm⟩
    | cons c m =>
        obtain ⟨rfl, hrest⟩ := List.cons_eq_cons.mp hm
        exact Or.inr ⟨m, rfl, hrest⟩

theorem eq_of_not_mem {a b t rest : List α} (ht : sep ∉ t) (ha : sep ∉ a)
    (h : a ++ sep :: b = t ++ sep :: rest) : a = t ∧ b = rest := by
  rcases first_or_later ht h with hfirst | ⟨a', rfl, -⟩
  · exact hfirst
  · exact absurd (List.mem_append_right t List.mem_cons_self) ha

theorem idxOf?_first [BEq α] [LawfulBEq α] {t rest : List α} (ht : sep ∉ t) :
    (t ++ sep :: rest).idxOf? sep = some t.length := by
  induction t with
  | nil => simp [List.idxOf?_cons]
  | cons x t ih =>
      have hx : x ≠ sep := fun hxc => ht (by rw [hxc]; exact List.mem_cons_self)
      rw [List.cons_append, List.idxOf?_cons, if_neg (by simpa using hx),
        ih fun hc => ht (List.mem_cons_of_mem x hc), Option.map_some, List.length_cons]

/-- A text that neither begins nor ends with a separator and has no two of them together. -/
structure Plain (sep : α) (text : List α) : Prop where
  first : ∀ b, text ≠ sep :: b
  last : ∀ a, text ≠ a ++ [sep]
  apart : ∀ a b, text ≠ a ++ sep :: sep :: b

theorem plain_of_not_mem {text : List α} (h : sep ∉ text) : Plain sep text := by
  refine ⟨fun b hb => h ?_, fun a ha => h ?_, fun a b hab => h ?_⟩
  · rw [hb]
    exact List.mem_cons_self
  · rw [ha]
    exact List.mem_append_right a List.mem_cons_self
  · rw [hab]
    exact List.mem_append_right a List.mem_cons_self

theorem Plain.cons {t rest : List α} (ht : sep ∉ t) (hne : t ≠ []) (hrest : Plain sep rest)
    (hsome : rest ≠ []) : Plain sep (t ++ sep :: rest) := by
  refine ⟨fun b hb => ?_, fun a ha => ?_, fun a b hab => ?_⟩
  · have hnil : ([] : List α) ++ sep :: b = t ++ sep :: rest := hb.symm
    exact hne (eq_of_not_mem ht List.not_mem_nil hnil).1.symm
  · rcases first_or_later ht ha.symm with ⟨-, hlast⟩ | ⟨a', -, hlast⟩
    · exact hsome hlast.symm
    · exact hrest.last a' hlast
  · rcases first_or_later ht hab.symm with ⟨-, hsecond⟩ | ⟨a', -, hlater⟩
    · exact hrest.first b hsecond.symm
    · exact hrest.apart a' b hlater

/-- Two plain texts are told apart by the two separators between them, the only ones together. -/
theorem Plain.eq_of_doubled {front back a b : List α} (hfront : Plain sep front)
    (hback : Plain sep back) (h : front ++ sep :: sep :: back = a ++ sep :: sep :: b) :
    a = front ∧ b = back := by
  rcases List.append_eq_append_iff.mp h with ⟨m, rfl, hm⟩ | ⟨m, rfl, hm⟩
  · match m, hm with
    | [], hm =>
        obtain ⟨-, hm⟩ := List.cons_eq_cons.mp hm
        obtain ⟨-, hm⟩ := List.cons_eq_cons.mp hm
        exact ⟨List.append_nil front, hm.symm⟩
    | [c], hm =>
        obtain ⟨-, hm⟩ := List.cons_eq_cons.mp hm
        obtain ⟨-, hm⟩ := List.cons_eq_cons.mp hm
        exact absurd hm (hback.first b)
    | c :: c' :: m, hm =>
        obtain ⟨-, hm⟩ := List.cons_eq_cons.mp hm
        obtain ⟨-, hm⟩ := List.cons_eq_cons.mp hm
        exact absurd hm (hback.apart m b)
  · match m, hm with
    | [], hm =>
        obtain ⟨-, hm⟩ := List.cons_eq_cons.mp hm
        obtain ⟨-, hm⟩ := List.cons_eq_cons.mp hm
        exact ⟨(List.append_nil a).symm, hm⟩
    | [c], hm =>
        obtain ⟨rfl, -⟩ := List.cons_eq_cons.mp hm
        exact absurd rfl (hfront.last a)
    | c :: c' :: m, hm =>
        obtain ⟨hc, hm⟩ := List.cons_eq_cons.mp hm
        obtain ⟨hc', -⟩ := List.cons_eq_cons.mp hm
        rw [← hc, ← hc'] at hfront
        exact absurd rfl (hfront.apart a m)

section Pieces

variable {ts ts' : List (List α)}

/-- What may stand between separators: no separator, and something. -/
def Pieces (sep : α) (ts : List (List α)) : Prop := ∀ t ∈ ts, t ≠ [] ∧ sep ∉ t

theorem intercalate_ne_nil {t : List α} (ht : t ≠ []) : [sep].intercalate (t :: ts) ≠ [] := by
  cases ts with
  | nil => rwa [List.intercalate_singleton]
  | cons t' ts =>
      rw [List.intercalate_cons_cons, List.append_assoc]
      exact List.append_ne_nil_of_left_ne_nil ht _

theorem Pieces.plain (h : Pieces sep ts) : Plain sep ([sep].intercalate ts) := by
  induction ts with
  | nil => exact plain_of_not_mem List.not_mem_nil
  | cons t ts ih =>
      obtain ⟨hne, ht⟩ := h t List.mem_cons_self
      have hts : Pieces sep ts := fun t' ht' => h t' (List.mem_cons_of_mem t ht')
      cases ts with
      | nil =>
          rw [List.intercalate_singleton]
          exact plain_of_not_mem ht
      | cons t' ts =>
          rw [List.intercalate_cons_cons, List.append_assoc, List.singleton_append]
          exact (ih hts).cons ht hne (intercalate_ne_nil (hts t' List.mem_cons_self).1)

theorem Pieces.unique [DecidableEq α] (h : Pieces sep ts) (h' : Pieces sep ts')
    (heq : [sep].intercalate ts = [sep].intercalate ts') : ts = ts' := by
  have hsplit : ∀ {ts : List (List α)}, Pieces sep ts → ts ≠ [] →
      ([sep].intercalate ts).splitOn sep = ts :=
    fun h hne => List.splitOn_intercalate sep (fun t ht => (h t ht).2) hne
  cases ts with
  | nil =>
      cases ts' with
      | nil => rfl
      | cons t' ts' => exact absurd heq.symm (intercalate_ne_nil (h' t' List.mem_cons_self).1)
  | cons t ts =>
      cases ts' with
      | nil => exact absurd heq (intercalate_ne_nil (h t List.mem_cons_self).1)
      | cons t' ts' =>
          rw [← hsplit h (List.cons_ne_nil t ts), heq, hsplit h' (List.cons_ne_nil t' ts')]

theorem intercalate_concat {t : List α} (hne : ts ≠ []) :
    [sep].intercalate (ts ++ [t]) = [sep].intercalate ts ++ sep :: t := by
  induction ts with
  | nil => exact absurd rfl hne
  | cons t₀ ts ih =>
      cases ts with
      | nil => rw [List.singleton_append, List.intercalate_cons_cons, List.intercalate_singleton,
          List.intercalate_singleton, List.append_assoc, List.singleton_append]
      | cons t₁ ts =>
          have hlater := ih (List.cons_ne_nil t₁ ts)
          rw [List.cons_append] at hlater
          rw [List.cons_append, List.cons_append, List.intercalate_cons_cons, hlater,
            List.intercalate_cons_cons, List.append_assoc (t₀ ++ [sep])]

theorem mem_intercalate {c : α} (h : c ∈ [sep].intercalate ts) : c = sep ∨ ∃ t ∈ ts, c ∈ t := by
  induction ts with
  | nil => exact absurd h List.not_mem_nil
  | cons t ts ih =>
      cases ts with
      | nil =>
          rw [List.intercalate_singleton] at h
          exact Or.inr ⟨t, List.mem_cons_self, h⟩
      | cons t' ts =>
          rw [List.intercalate_cons_cons, List.append_assoc, List.singleton_append] at h
          rcases List.mem_append.mp h with ht | h
          · exact Or.inr ⟨t, List.mem_cons_self, ht⟩
          · rcases List.mem_cons.mp h with rfl | h
            · exact Or.inl rfl
            · rcases ih h with rfl | ⟨t₀, ht₀, hc⟩
              · exact Or.inl rfl
              · exact Or.inr ⟨t₀, List.mem_cons_of_mem t ht₀, hc⟩

end Pieces

end Separated
