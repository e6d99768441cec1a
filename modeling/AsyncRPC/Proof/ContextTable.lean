import AsyncRPC.ContextTable
import AsyncRPC.Lib.Run

/-!
# What a thread that grows the table does to the others

Only a resize to fewer contexts than there are loses any. As long as there is none, each descriptor
keeps the context it got first, and all that is ever taken for it is that one.
-/

namespace AsyncRPC.ContextTable.State

open Transition Word

variable {Thread : Type} {s s' : State Thread}

/-- What is made or taken for a descriptor is its place in the table. -/
structure Settled (s : State Thread) : Prop where
  size_ge : 64 ≤ s.contexts.length
  made : ∀ fd context, Entry.made fd context ∈ s.log → s.contexts[fd]? = some context
  used : ∀ fd taken, Entry.used fd taken ∈ s.log →
    taken = s.contexts[fd.val]? ∧ fd.val < s.contexts.length

theorem Settled.stable (h : s'.Settled) (hkeeps : s.contexts.length ≤ s'.contexts.length) :
    s.Stable s' where
  keeps := hkeeps
  inBounds := by
    intro fd hmem
    obtain ⟨hnone, hfd⟩ := h.used fd none hmem
    rw [List.getElem?_eq_getElem hfd] at hnone
    cases hnone
  same := by
    refine List.pairwise_of_forall_mem_list ?_
    rintro before hbefore after hafter fd context taken rfl rfl
    rw [(h.used fd taken hafter).1, h.made fd.val context hbefore]

section Resize

variable {size : Nat}

theorem length_contextResize (s : State Thread) (size : Nat) :
    (s.contextResize size).contexts.length = size := by
  rw [contextResize, List.length_append, List.length_take, List.length_range']
  omega

theorem getElem?_contextResize (hle : s.contexts.length ≤ size) {fd : Nat}
    (hfd : fd < s.contexts.length) : (s.contextResize size).contexts[fd]? = s.contexts[fd]? := by
  rw [contextResize, List.take_of_length_le hle]
  exact List.getElem?_append_left hfd

theorem getElem?_contextResize_new (hle : s.contexts.length ≤ size) {i : Nat}
    (hi : i < size - s.contexts.length) :
    (s.contextResize size).contexts[s.contexts.length + i]? = some (s.made + i) := by
  rw [contextResize, List.take_of_length_le hle]
  dsimp only
  rw [List.getElem?_append_right (Nat.le_add_right _ _), Nat.add_sub_cancel_left,
    List.getElem?_range' hi, Nat.one_mul]

end Resize

theorem Settled.contextResize (h : s.Settled) {size : Nat} (hle : s.contexts.length ≤ size) :
    (s.contextResize size).Settled where
  size_ge := by
    rw [length_contextResize]
    exact h.size_ge.trans hle
  made := by
    intro fd context hmem
    rcases List.mem_append.mp hmem with hold | hnew
    · have hget := h.made fd context hold
      obtain ⟨hfd, -⟩ := List.getElem?_eq_some_iff.mp hget
      rw [getElem?_contextResize hle hfd, hget]
    · obtain ⟨i, hi, heq⟩ := List.mem_map.mp hnew
      cases heq
      exact getElem?_contextResize_new hle (List.mem_range.mp hi)
  used := by
    intro fd taken hmem
    rcases List.mem_append.mp hmem with hold | hnew
    · obtain ⟨htaken, hfd⟩ := h.used fd taken hold
      rw [getElem?_contextResize hle hfd, length_contextResize]
      exact ⟨htaken, Nat.lt_of_lt_of_le hfd hle⟩
    · obtain ⟨i, -, heq⟩ := List.mem_map.mp hnew
      cases heq

theorem Settled.take (h : s.Settled) {fd : IOManager.Fd} (hfd : fd.val < s.contexts.length) :
    (s.take fd).Settled where
  size_ge := h.size_ge
  made := by
    intro fd' context hmem
    rcases List.mem_append.mp hmem with hold | hnew
    · exact h.made fd' context hold
    · cases List.mem_singleton.mp hnew
  used := by
    intro fd' taken hmem
    rcases List.mem_append.mp hmem with hold | hnew
    · exact h.used fd' taken hold
    · cases List.mem_singleton.mp hnew
      exact ⟨rfl, hfd⟩

theorem Settled.growing (h : s.Settled) (growing : Thread → Option IOManager.Fd) :
    ({ s with growing := growing } : State Thread).Settled := ⟨h.size_ge, h.made, h.used⟩

theorem settled_init : (init : State Thread).Settled where
  size_ge := by rw [init, length_contextResize]
  made := by
    intro fd context hmem
    obtain ⟨i, hi, heq⟩ := List.mem_map.mp hmem
    cases heq
    exact getElem?_contextResize_new (Nat.zero_le 64) (List.mem_range.mp hi)
  used := by
    intro fd taken hmem
    obtain ⟨i, -, heq⟩ := List.mem_map.mp hmem
    cases heq

variable [DecidableEq Thread] {l : Label Thread}

/-- The step lemma. -/
theorem Settled.next (h : s.Settled) (hgrows : s.Grows l) (hnext : s.next l = some s') :
    s'.Settled ∧ s.contexts.length ≤ s'.contexts.length := by
  cases l with
  | check t fd =>
      rw [State.next] at hnext
      split at hnext
      · cases hnext
      · split at hnext
        · next hsize =>
          cases hnext
          have hle := intOfSize_le s.contexts.length
          exact ⟨h.take (by omega), le_rfl⟩
        · cases hnext
          exact ⟨h.growing _, le_rfl⟩
  | grow t =>
      rw [State.next] at hnext
      split at hnext
      · cases hnext
      · next fd hgrowing =>
        cases hnext
        have hle := hgrows fd hgrowing
        have hge := h.size_ge
        refine ⟨((h.contextResize hle).take ?_).growing _, ?_⟩
        · rw [length_contextResize]
          omega
        · change s.contexts.length ≤ (s.contextResize _).contexts.length
          rw [length_contextResize]
          exact hle
  | find fd =>
      rw [State.next] at hnext
      split at hnext
      · cases hnext
        exact ⟨h, le_rfl⟩
      · next hsize =>
        cases hnext
        have hle := intOfSize_le s.contexts.length
        exact ⟨h.take (by omega), le_rfl⟩

theorem Settled.total (h : s.Settled) (hgrows : s.Grows l) :
    (total State.next s l).Settled ∧ s.contexts.length ≤ (total State.next s l).contexts.length := by
  rw [Transition.total]
  cases hnext : s.next l with
  | none => exact ⟨h, le_rfl⟩
  | some s' => exact h.next hgrows hnext

theorem grows_of_stable (h : s.Stable (total State.next s l)) : s.Grows l := by
  cases l with
  | check t fd => trivial
  | find fd => trivial
  | grow t =>
      intro fd hgrowing
      have hkeeps := h.keeps
      rw [Transition.total, State.next, hgrowing] at hkeeps
      change s.contexts.length ≤ (s.contextResize _).contexts.length at hkeeps
      rwa [length_contextResize] at hkeeps

/-- However the threads' critical sections are interleaved, the table never shrinks, what is taken is in
bounds, and each descriptor keeps its first context, just if every thread that resizes asks for at least
the size there is by then. -/
theorem stable_iff_grows (labels : List (Label Thread)) :
    AllSteps (total State.next) (fun s l => s.Stable (total State.next s l)) init labels ↔
      AllSteps (total State.next) Grows init labels := by
  constructor
  · intro hstable before l hbegins
    exact grows_of_stable (hstable before l hbegins)
  · intro hgrows
    suffices hrun : ∀ s : State Thread, s.Settled → AllSteps (total State.next) Grows s labels →
        AllSteps (total State.next) (fun s l => s.Stable (total State.next s l)) s labels from
      hrun init settled_init hgrows
    clear hgrows
    induction labels with
    | nil =>
        intro s _ _
        exact allSteps_nil
    | cons l labels ih =>
        intro s h hgrows
        obtain ⟨hl, hrest⟩ := allSteps_cons.mp hgrows
        obtain ⟨hsettled, hkeeps⟩ := h.total hl
        exact allSteps_cons.mpr ⟨hsettled.stable hkeeps, ih _ hsettled hrest⟩

/-- Descriptors 64 and 65 find a table of 64 contexts. The second thread grows it to 97, the first then
shrinks it to 96, and descriptor 96 gets another context. -/
def racing : List (Label Nat) :=
  [.check 0 64, .check 1 65, .grow 1, .grow 0, .check 1 96, .grow 1]

theorem not_stable_racing :
    ¬ AllSteps (total State.next) (fun s l => s.Stable (total State.next s l)) init racing ∧
      Entry.made 96 96 ∈ (run (total State.next) init racing).log ∧
      Entry.used 96 (some 97) ∈ (run (total State.next) init racing).log := by
  refine ⟨?_, by decide +kernel, by decide +kernel⟩
  intro h
  have hgrows := grows_of_stable (h [.check 0 64, .check 1 65, .grow 1] (.grow 0) ⟨_, rfl⟩)
  have hle := hgrows 64 (by decide +kernel)
  revert hle
  decide +kernel

end AsyncRPC.ContextTable.State
