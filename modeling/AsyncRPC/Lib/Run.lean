import Mathlib.Data.List.Basic
import Mathlib.Data.List.Infix

/-!
# Runs

A component is a step relation, or a step function, over its states. An invariant is proved once per
step and holds along every run; a run that only takes steps meeting a condition is a run of the
guarded relation. For a step function there is also the exact form: when one step keeps a law
precisely if it meets a condition, a whole run keeps the law in every state it passes precisely if
all its steps meet the condition.
-/

namespace Transition

section Relation

variable {State Label : Type} {step : State → Label → State → Prop} {init : State → Prop}

/-- The states that some run from an initial state reaches. -/
inductive Reachable (step : State → Label → State → Prop) (init : State → Prop) : State → Prop
  | start {s : State} (hinit : init s) : Reachable step init s
  | next {s t : State} {l : Label} (hreach : Reachable step init s) (hstep : step s l t) :
      Reachable step init t

/-- The steps whose label and state before meet a condition. -/
def Guarded (guard : State → Label → Prop) (step : State → Label → State → Prop) :
    State → Label → State → Prop :=
  fun s l t => guard s l ∧ step s l t

theorem Reachable.invariant {Inv : State → Prop} (hinit : ∀ s, init s → Inv s)
    (hstep : ∀ s l t, Inv s → step s l t → Inv t) {s : State} (hs : Reachable step init s) :
    Inv s := by
  induction hs with
  | start h => exact hinit _ h
  | next _ h ih => exact hstep _ _ _ ih h

/-- No run goes on for ever: a sequence of states from an initial one has a place where it takes no
step. -/
def Ends (step : State → Label → State → Prop) (init : State → Prop) : Prop :=
  ∀ run : Nat → State, init (run 0) → ∃ n, ∀ l, ¬ step (run n) l (run (n + 1))

theorem Ends.of_measure {Inv : State → Prop} (measure : State → Nat) (hinit : ∀ s, init s → Inv s)
    (hstep : ∀ s l t, Inv s → step s l t → Inv t ∧ measure t < measure s) : Ends step init := by
  intro run hstart
  by_contra hnot
  have hgoes : ∀ n, ∃ l, step (run n) l (run (n + 1)) := by
    intro n
    by_contra hstops
    exact hnot ⟨n, fun l hl => hstops ⟨l, hl⟩⟩
  have hbound : ∀ n, Inv (run n) ∧ measure (run n) + n ≤ measure (run 0) := by
    intro n
    induction n with
    | zero => exact ⟨hinit _ hstart, le_rfl⟩
    | succ n ih =>
        obtain ⟨l, hl⟩ := hgoes n
        obtain ⟨hinv, hless⟩ := hstep _ l _ ih.1 hl
        have hprev := ih.2
        exact ⟨hinv, by omega⟩
  have hlast := (hbound (measure (run 0) + 1)).2
  omega

/-- Forward simulation: a step of the one system is a step of the other, or none. -/
theorem Reachable.simulated {State' Label' : Type} {step' : State' → Label' → State' → Prop}
    {init' : State' → Prop} {Sim : State → State' → Prop}
    (hinit : ∀ s, init s → ∃ a, init' a ∧ Sim s a)
    (hstep : ∀ s l t a, Reachable step' init' a → Sim s a → step s l t →
      Sim t a ∨ ∃ m b, step' a m b ∧ Sim t b) {s : State} (hs : Reachable step init s) :
    ∃ a, Reachable step' init' a ∧ Sim s a := by
  induction hs with
  | start h =>
      obtain ⟨a, ha, hsim⟩ := hinit _ h
      exact ⟨a, .start ha, hsim⟩
  | next _ h ih =>
      obtain ⟨a, ha, hsim⟩ := ih
      rcases hstep _ _ _ a ha hsim h with hsame | ⟨m, b, hb, hnext⟩
      · exact ⟨a, ha, hsame⟩
      · exact ⟨b, ha.next hb, hnext⟩

theorem Reachable.of_run {next : State → Label → Option State}
    (hnext : ∀ s l t, next s l = some t → step s l t) {s t : State} {labels : List Label}
    (hs : Reachable step init s) (hrun : labels.foldlM next s = some t) : Reachable step init t := by
  induction labels generalizing s with
  | nil =>
      cases hrun
      exact hs
  | cons l labels ih =>
      rw [List.foldlM_cons] at hrun
      obtain ⟨s', hstep, hrest⟩ := Option.bind_eq_some_iff.mp hrun
      exact ih (hs.next (hnext s l s' hstep)) hrest

/-- A step that can be computed, with its condition checked. -/
def guarded (guard : State → Label → Prop) [∀ s l, Decidable (guard s l)]
    (next : State → Label → Option State) (s : State) (l : Label) : Option State :=
  if guard s l then next s l else none

theorem guarded_step {guard : State → Label → Prop} [∀ s l, Decidable (guard s l)]
    {next : State → Label → Option State} (s : State) (l : Label) (t : State)
    (h : guarded guard next s l = some t) : Guarded guard (fun s l t => next s l = some t) s l t := by
  rw [guarded] at h
  split at h
  · next hguard => exact ⟨hguard, h⟩
  · cases h

end Relation

section Function

variable {State Label : Type}

/-- The state after a list of labels, oldest first. -/
def run (step : State → Label → State) (s : State) (labels : List Label) : State :=
  labels.foldl step s

variable {step : State → Label → State}

/-- Every step of a run meets a condition on its label and the state before it. -/
def AllSteps (step : State → Label → State) (ok : State → Label → Prop) (s : State)
    (labels : List Label) : Prop :=
  ∀ before l, before ++ [l] <+: labels → ok (run step s before) l

/-- A law holds in every state a run passes, the first and the last included. -/
def AllStates (step : State → Label → State) (law : State → Prop) (s : State)
    (labels : List Label) : Prop :=
  ∀ before, before <+: labels → law (run step s before)

theorem allSteps_nil {ok : State → Label → Prop} {s : State} : AllSteps step ok s [] := by
  intro before l hinitial
  simp at hinitial

theorem allSteps_cons {ok : State → Label → Prop} {s : State} {l : Label} {labels : List Label} :
    AllSteps step ok s (l :: labels) ↔ ok s l ∧ AllSteps step ok (step s l) labels := by
  constructor
  · intro h
    refine ⟨h [] l (by simp), fun before m hinitial => ?_⟩
    exact h (l :: before) m (by simpa using hinitial)
  · rintro ⟨hl, h⟩ before m hinitial
    cases before with
    | nil =>
        have hm : m = l := by simpa using hinitial
        exact hm ▸ hl
    | cons k before =>
        obtain ⟨rfl, hrest⟩ : k = l ∧ before ++ [m] <+: labels := by simpa using hinitial
        exact h before m hrest

theorem allStates_nil {law : State → Prop} {s : State} : AllStates step law s [] ↔ law s := by
  constructor
  · intro h
    exact h [] List.prefix_rfl
  · intro h before hinitial
    rw [List.prefix_nil.mp hinitial]
    exact h

theorem allStates_cons {law : State → Prop} {s : State} {l : Label} {labels : List Label} :
    AllStates step law s (l :: labels) ↔ law s ∧ AllStates step law (step s l) labels := by
  constructor
  · intro h
    refine ⟨h [] List.nil_prefix, fun before hinitial => ?_⟩
    exact h (l :: before) (by simpa using hinitial)
  · rintro ⟨hs, h⟩ before hinitial
    cases before with
    | nil => exact hs
    | cons k before =>
        obtain ⟨rfl, hrest⟩ : k = l ∧ before <+: labels := by simpa using hinitial
        exact h before hrest

/-- What holds of every possible step from a lawful state holds of every step of a lawful run. -/
theorem allSteps_of_allStates {Inv law : State → Prop} {possible ok : State → Label → Prop}
    (hinv : ∀ s l, Inv s → law s → possible s l → law (step s l) → Inv (step s l))
    (hok : ∀ s l, Inv s → law s → possible s l → law (step s l) → ok s l) {s : State} (hs : Inv s)
    {labels : List Label} (hpossible : AllSteps step possible s labels)
    (hlaw : AllStates step law s labels) : AllSteps step ok s labels := by
  induction labels generalizing s with
  | nil => exact allSteps_nil
  | cons l labels ih =>
      obtain ⟨hl, hrest⟩ := allSteps_cons.mp hpossible
      obtain ⟨hfirst, hnext⟩ := allStates_cons.mp hlaw
      have hthen : law (step s l) := hnext [] List.nil_prefix
      refine allSteps_cons.mpr ⟨hok s l hs hfirst hl hthen, ?_⟩
      exact ih (hinv s l hs hfirst hl hthen) hrest hnext

/-- **The exact run rule.** As long as the law holds a background invariant does too, and under both
one possible step keeps the law precisely when it meets the condition. Then a run of possible steps
keeps the law throughout precisely when all its steps meet the condition: the first step that does
not already breaks it. -/
theorem allStates_iff_allSteps {Inv law : State → Prop} {possible ok : State → Label → Prop}
    (hinv : ∀ s l, Inv s → law s → possible s l → law (step s l) → Inv (step s l))
    (hexact : ∀ s l, Inv s → law s → possible s l → (law (step s l) ↔ ok s l)) {s : State}
    (hs : Inv s) (hlaw : law s) {labels : List Label} (hpossible : AllSteps step possible s labels) :
    AllStates step law s labels ↔ AllSteps step ok s labels := by
  induction labels generalizing s with
  | nil => exact iff_of_true (allStates_nil.mpr hlaw) allSteps_nil
  | cons l labels ih =>
      obtain ⟨hl, hrest⟩ := allSteps_cons.mp hpossible
      have hstep := hexact s l hs hlaw hl
      rw [allStates_cons, allSteps_cons]
      constructor
      · rintro ⟨-, hall⟩
        have hnext : law (step s l) := hall [] List.nil_prefix
        exact ⟨hstep.mp hnext, (ih (hinv s l hs hlaw hl hnext) hnext hrest).mp hall⟩
      · rintro ⟨hok, hall⟩
        have hnext : law (step s l) := hstep.mpr hok
        exact ⟨hlaw, (ih (hinv s l hs hlaw hl hnext) hnext hrest).mpr hall⟩

/-- Under an invariant that possible steps keep, two conditions that agree on each possible step are met
by the same runs of possible steps. -/
theorem allSteps_congr {Inv : State → Prop} {possible ok ok' : State → Label → Prop}
    (hinv : ∀ s l, Inv s → possible s l → Inv (step s l))
    (hexact : ∀ s l, Inv s → possible s l → (ok s l ↔ ok' s l)) {s : State} (hs : Inv s)
    {labels : List Label} (hpossible : AllSteps step possible s labels) :
    AllSteps step ok s labels ↔ AllSteps step ok' s labels := by
  induction labels generalizing s with
  | nil => exact iff_of_true allSteps_nil allSteps_nil
  | cons l labels ih =>
      obtain ⟨hl, hrest⟩ := allSteps_cons.mp hpossible
      rw [allSteps_cons, allSteps_cons, hexact s l hs hl, ih (hinv s l hs hl) hrest]

/-- What every step keeps is kept to the end of a run. -/
theorem run_keeps {P : State → Prop} (hstep : ∀ s l, P s → P (step s l)) {s : State} (hs : P s)
    (labels : List Label) : P (run step s labels) := by
  induction labels generalizing s with
  | nil => exact hs
  | cons l labels ih => exact ih (hstep s l hs)

theorem run_append {s : State} (before after : List Label) :
    run step s (before ++ after) = run step (run step s before) after :=
  List.foldl_append

/-- A step function by which a step that is not enabled changes nothing. -/
def total (next : State → Label → Option State) (s : State) (l : Label) : State :=
  (next s l).getD s

theorem run_total {next : State → Label → Option State} {s t : State} {labels : List Label}
    (hrun : labels.foldlM next s = some t) : run (total next) s labels = t ∧
      AllSteps (total next) (fun s l => next s l = some (total next s l)) s labels := by
  induction labels generalizing s with
  | nil =>
      cases hrun
      exact ⟨rfl, allSteps_nil⟩
  | cons l labels ih =>
      rw [List.foldlM_cons] at hrun
      obtain ⟨u, hstep, hrest⟩ := Option.bind_eq_some_iff.mp hrun
      have hu : total next s l = u := by
        rw [total, hstep]
        rfl
      obtain ⟨hlast, hsteps⟩ := ih hrest
      refine ⟨?_, allSteps_cons.mpr ⟨?_, ?_⟩⟩
      · rw [← hlast, ← hu]
        rfl
      · rw [hu]
        exact hstep
      · rw [hu]
        exact hsteps

end Function

section Crash

variable {State Label Error : Type}

/-- A step of a process that may have crashed; then it stays crashed. -/
def attempt (perform : State → Label → Except Error State) (r : Except Error State) (l : Label) :
    Except Error State :=
  r >>= fun s => perform s l

theorem attempt_ok (perform : State → Label → Except Error State) (s : State) (l : Label) :
    attempt perform (.ok s) l = perform s l := rfl

/-- A statement about the state of a process that has not crashed. -/
def Live (P : State → Prop) : Except Error State → Prop
  | .ok s => P s
  | .error _ => False

/-- A statement about a step that a process takes, none about one that has crashed. -/
def WhenLive (P : State → Label → Prop) : Except Error State → Label → Prop
  | .ok s => P s
  | .error _ => fun _ => True

theorem live_iff {P : State → Prop} {r : Except Error State} : Live P r ↔ ∃ s, r = .ok s ∧ P s := by
  cases r with
  | error crash => simp [Live]
  | ok s => simp [Live]

theorem WhenLive.imp {P Q : State → Label → Prop} (h : ∀ s l, P s l → Q s l) {r : Except Error State}
    {l : Label} (hr : WhenLive P r l) : WhenLive Q r l := by
  cases r with
  | error crash => trivial
  | ok s => exact h s l hr

theorem whenLive_of_forall {P : State → Label → Prop} (h : ∀ s l, P s l) (r : Except Error State)
    (l : Label) : WhenLive P r l := by
  cases r with
  | error crash => trivial
  | ok s => exact h s l

variable {perform : State → Label → Except Error State} {Inv law : State → Prop}
variable {possible ok : State → Label → Prop}

theorem live_attempt
    (hinv : ∀ s l t, Inv s → law s → possible s l → perform s l = .ok t → law t → Inv t)
    (r : Except Error State) (l : Label) (h : Live Inv r) (hlaw : Live law r)
    (hpossible : WhenLive possible r l) (hnext : Live law (attempt perform r l)) :
    Live Inv (attempt perform r l) := by
  obtain ⟨s, rfl, hs⟩ := live_iff.mp h
  obtain ⟨t, ht, hlawt⟩ := live_iff.mp hnext
  exact live_iff.mpr ⟨t, ht, hinv s l t hs hlaw hpossible ht hlawt⟩

/-- The exact run rule for a process that may crash, where a crash breaks the law. -/
theorem live_allStates_iff_allSteps
    (hinv : ∀ s l t, Inv s → law s → possible s l → perform s l = .ok t → law t → Inv t)
    (hexact : ∀ s l, Inv s → law s → possible s l → (Live law (perform s l) ↔ ok s l)) {s : State}
    (hs : Inv s) (hlaw : law s) {labels : List Label}
    (hpossible : AllSteps (attempt perform) (WhenLive possible) (.ok s) labels) :
    AllStates (attempt perform) (Live law) (.ok s) labels ↔
      AllSteps (attempt perform) (WhenLive ok) (.ok s) labels := by
  have hlive : Live Inv (.ok s : Except Error State) := hs
  refine allStates_iff_allSteps (live_attempt hinv) ?_ hlive hlaw hpossible
  intro r l h hlawr hl
  obtain ⟨s, rfl, hs⟩ := live_iff.mp h
  exact hexact s l hs hlawr hl

theorem live_allSteps_of_allStates
    (hinv : ∀ s l t, Inv s → law s → possible s l → perform s l = .ok t → law t → Inv t)
    (hok : ∀ s l, Inv s → law s → possible s l → Live law (perform s l) → ok s l) {s : State}
    (hs : Inv s) {labels : List Label}
    (hpossible : AllSteps (attempt perform) (WhenLive possible) (.ok s) labels)
    (hlaw : AllStates (attempt perform) (Live law) (.ok s) labels) :
    AllSteps (attempt perform) (WhenLive ok) (.ok s) labels := by
  have hlive : Live Inv (.ok s : Except Error State) := hs
  refine allSteps_of_allStates (live_attempt hinv) ?_ hlive hpossible hlaw
  intro r l h hlawr hl hnext
  obtain ⟨s, rfl, hs⟩ := live_iff.mp h
  exact hok s l hs hlawr hl hnext

end Crash

end Transition
