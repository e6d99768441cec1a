import AsyncRPC.Lib.Interleaving
import AsyncRPC.Lib.Run

/-!
# Coroutines

Any number of workers that run bodies of code by turns. A worker resumes a coroutine, which then has the
worker until it yields or its body ends; after that the worker's own code goes on. A coroutine may
be given another body when it has none that is begun. What the code does otherwise is left open: only
how far it is counts.
-/

namespace Coroutine

/-- Code that keeps its place: that of a worker, or a body of a coroutine, which are numbered. -/
inductive Code (Worker : Type)
  | own (w : Worker)
  | body (f k : Nat)
  deriving Repr, DecidableEq

inductive Status
  | new (body : Option Nat)
  | suspended (k : Nat)
  | running (k : Nat)
  | ended
  deriving Repr, DecidableEq

structure State (Worker : Type) where
  made : Nat
  /-- How many bodies a coroutine has been given. -/
  bodies : Nat → Nat
  status : Nat → Option Status
  /-- The coroutine that has the worker. -/
  within : Worker → Option Nat
  place : Code Worker → Nat
  /-- The steps of all the code, oldest first. -/
  log : List (Code Worker × Nat)

inductive Act
  | work
  | create
  /-- The coroutine is given a body, or is left without. -/
  | give (f : Nat) (empty : Bool)
  | discard (f : Nat)
  | resume (f : Nat)
  | yield
  | finish
  deriving Repr, DecidableEq

/-- There is no body that is begun and has not ended. -/
def Status.idle : Status → Bool
  | .new _ | .ended => true
  | .suspended _ | .running _ => false

/-- The body that it has. -/
def Status.body : Status → Option Nat
  | .new body => body
  | .suspended k | .running k => some k
  | .ended => none

/-- The body that goes on when the coroutine is resumed. -/
def Status.waiting : Status → Option Nat
  | .new body => body
  | .suspended k => some k
  | .running _ | .ended => none

namespace State

variable {Worker : Type} [DecidableEq Worker]

/-- The code that the worker runs. -/
def active (s : State Worker) (w : Worker) : Option (Code Worker) :=
  match s.within w with
  | none => some (.own w)
  | some f =>
      match s.status f with
      | some (.running k) => some (.body f k)
      | _ => none

def execute (s : State Worker) (c : Code Worker) : State Worker :=
  { s with
    place := Function.update s.place c (s.place c + 1)
    log := s.log ++ [(c, s.place c)] }

def setStatus (s : State Worker) (f : Nat) (status : Option Status) : State Worker :=
  { s with status := Function.update s.status f status }

def setWithin (s : State Worker) (w : Worker) (f : Option Nat) : State Worker :=
  { s with within := Function.update s.within w f }

/-- What the step does besides. -/
def act (s : State Worker) (w : Worker) : Act → Option (State Worker)
  | .work => some s
  | .create =>
      some
        { s.setStatus (s.made + 1) (some (.new (some 0))) with
          made := s.made + 1
          bodies := Function.update s.bodies (s.made + 1) 1 }
  | .give f empty =>
      if (s.status f).any Status.idle then
        some
          { s.setStatus f (some (.new (if empty then none else some (s.bodies f)))) with
            bodies := Function.update s.bodies f (s.bodies f + 1) }
      else none
  | .discard f => if (s.status f).any Status.idle then some (s.setStatus f none) else none
  | .resume f =>
      match s.within w, (s.status f).bind Status.waiting with
      | none, some k => some ((s.setStatus f (some (.running k))).setWithin w (some f))
      | _, _ => none
  | .yield =>
      match s.within w with
      | none => some s
      | some f =>
          match s.status f with
          | some (.running k) => some ((s.setStatus f (some (.suspended k))).setWithin w none)
          | _ => none
  | .finish =>
      match s.within w with
      | none => none
      | some f => some ((s.setStatus f (some .ended)).setWithin w none)

def step (s : State Worker) (l : Worker × Act) : Option (State Worker) := do
  let c ← s.active l.1
  (s.execute c).act l.1 l.2

def Step (s : State Worker) (l : Worker × Act) (t : State Worker) : Prop := s.step l = some t

end State

structure New {Worker : Type} (s : State Worker) : Prop where
  made : s.made = 0
  bodies : ∀ f, s.bodies f = 0
  status : ∀ f, s.status f = none
  within : ∀ w, s.within w = none
  place : ∀ c, s.place c = 0
  log : s.log = []

def Reached {Worker : Type} [DecidableEq Worker] (s : State Worker) : Prop :=
  Transition.Reachable State.Step New s

variable {Worker : Type} [DecidableEq Worker] {s t : State Worker} {w : Worker} {f k : Nat}
  {c : Code Worker}

/-- A coroutine has one worker at most, and just while it runs, and every body is executed from its
beginning on, in order. -/
structure Inv (s : State Worker) : Prop where
  running : ∀ f, (∃ k, s.status f = some (.running k)) ↔ ∃ w, s.within w = some f
  single : ∀ w w' f, s.within w = some f → s.within w' = some f → w = w'
  unmade : ∀ f, s.made < f → s.status f = none ∧ s.bodies f = 0
  given : ∀ f status k, s.status f = some status → status.body = some k → k < s.bodies f
  unused : ∀ f k, s.bodies f ≤ k → s.place (.body f k) = 0
  new : ∀ f k, s.status f = some (.new (some k)) → s.place (.body f k) = 0
  order : ∀ c, Interleaving.lane c s.log = List.range (s.place c)

theorem Inv.init (h : New s) : Inv s where
  running := fun f => by simp [h.status, h.within]
  single := fun w w' f hw => by simp [h.within] at hw
  unmade := fun f _ => ⟨h.status f, h.bodies f⟩
  given := fun f status k hstatus => by simp [h.status] at hstatus
  unused := fun f k _ => h.place _
  new := fun f k hstatus => by simp [h.status] at hstatus
  order := fun c => by simp [h.log, h.place, Interleaving.lane]

omit [DecidableEq Worker] in
theorem active_own (h : s.within w = none) : s.active w = some (.own w) := by
  rw [State.active, h]

omit [DecidableEq Worker] in
theorem active_body (h : s.within w = some f) (hstatus : s.status f = some (.running k)) :
    s.active w = some (.body f k) := by
  rw [State.active, h]
  dsimp only
  rw [hstatus]

omit [DecidableEq Worker] in
theorem active_cases (h : s.active w = some c) : (s.within w = none ∧ c = .own w) ∨
    ∃ f k, s.within w = some f ∧ s.status f = some (.running k) ∧ c = .body f k := by
  unfold State.active at h
  split at h
  · next hwithin => exact Or.inl ⟨hwithin, (Option.some.inj h).symm⟩
  · next f hwithin =>
    split at h
    · next k hstatus => exact Or.inr ⟨f, k, hwithin, hstatus, (Option.some.inj h).symm⟩
    · cases h

theorem place_self (s : State Worker) (c : Code Worker) : (s.execute c).place c = s.place c + 1 :=
  Function.update_self _ _ _

theorem place_of_ne {c' : Code Worker} (h : c' ≠ c) (s : State Worker) :
    (s.execute c).place c' = s.place c' := Function.update_of_ne h _ _

theorem Inv.execute (h : Inv s) (hactive : s.active w = some c) : Inv (s.execute c) where
  __ := h
  unused := by
    intro f k hk
    have hne : Code.body f k ≠ c := by
      rintro rfl
      rcases active_cases hactive with ⟨-, heq⟩ | ⟨f', k', -, hstatus, heq⟩
      · cases heq
      · cases heq
        exact absurd (h.given f _ k hstatus rfl) (Nat.not_lt.mpr hk)
    exact (place_of_ne hne s).trans (h.unused f k hk)
  new := by
    intro f k hnew
    have hne : Code.body f k ≠ c := by
      rintro rfl
      rcases active_cases hactive with ⟨-, heq⟩ | ⟨f', k', -, hstatus, heq⟩
      · cases heq
      · cases heq
        cases hnew.symm.trans hstatus
    exact (place_of_ne hne s).trans (h.new f k hnew)
  order := by
    intro c'
    change Interleaving.lane c' (s.log ++ [(c, s.place c)]) = List.range ((s.execute c).place c')
    rw [Interleaving.lane_append, h.order]
    by_cases hc : c' = c
    · rw [hc, place_self, Interleaving.lane_self, List.range_succ]
    · rw [place_of_ne hc, Interleaving.lane_other (Ne.symm hc), List.append_nil]

omit [DecidableEq Worker] in
theorem setStatus_self (s : State Worker) (f : Nat) (status : Option Status) :
    (s.setStatus f status).status f = status := Function.update_self _ _ _

omit [DecidableEq Worker] in
theorem setStatus_of_ne {f' : Nat} (h : f' ≠ f) (s : State Worker) (status : Option Status) :
    (s.setStatus f status).status f' = s.status f' := Function.update_of_ne h _ _

/-- A coroutine is given another status, and a worker may take it or leave it. -/
theorem Inv.change (h : Inv s) {status : Option Status} {within : Worker → Option Nat} (hmade : f ≤ s.made)
    (hgiven : ∀ st k, status = some st → st.body = some k → k < s.bodies f)
    (hnew : ∀ k, status = some (.new (some k)) → s.place (.body f k) = 0)
    (hself : (∃ k, status = some (.running k)) ↔ ∃ w, within w = some f)
    (hothers : ∀ f', f' ≠ f → ((∃ w, within w = some f') ↔ ∃ w, s.within w = some f'))
    (hsingle : ∀ w w' f', within w = some f' → within w' = some f' → w = w') :
    Inv { s.setStatus f status with within := within } where
  running := by
    intro f'
    by_cases hf : f' = f
    · subst hf
      dsimp only
      rw [setStatus_self]
      exact hself
    · dsimp only
      rw [setStatus_of_ne hf, h.running, hothers f' hf]
  single := hsingle
  unmade := by
    intro f' hlt
    refine ⟨?_, (h.unmade f' hlt).2⟩
    dsimp only
    rw [setStatus_of_ne (Nat.ne_of_gt (hmade.trans_lt hlt))]
    exact (h.unmade f' hlt).1
  given := by
    intro f' st k hst hbody
    dsimp only at hst
    by_cases hf : f' = f
    · subst hf
      rw [setStatus_self] at hst
      exact hgiven st k hst hbody
    · rw [setStatus_of_ne hf] at hst
      exact h.given f' st k hst hbody
  unused := h.unused
  new := by
    intro f' k hst
    dsimp only at hst
    by_cases hf : f' = f
    · subst hf
      rw [setStatus_self] at hst
      exact hnew k hst
    · rw [setStatus_of_ne hf] at hst
      exact h.new f' k hst
  order := h.order

/-- A coroutine that has no worker. -/
theorem Inv.setStatus (h : Inv s) (status : Option Status) (hidle : ∀ k, s.status f ≠ some (.running k))
    (hnot : ∀ k, status ≠ some (.running k)) (hmade : f ≤ s.made)
    (hgiven : ∀ st k, status = some st → st.body = some k → k < s.bodies f)
    (hnew : ∀ k, status = some (.new (some k)) → s.place (.body f k) = 0) :
    Inv (s.setStatus f status) := by
  refine h.change hmade hgiven hnew ?_ (fun _ _ => Iff.rfl) h.single
  refine iff_of_false (fun ⟨k, hk⟩ => hnot k hk) fun hwithin => ?_
  obtain ⟨k, hk⟩ := (h.running f).mpr hwithin
  exact hidle k hk

theorem Inv.made_of_status (h : Inv s) {status : Status} (hstatus : s.status f = some status) :
    f ≤ s.made := by
  by_contra hlt
  rw [(h.unmade f (Nat.lt_of_not_le hlt)).1] at hstatus
  cases hstatus

/-- A coroutine has been given more bodies. -/
theorem Inv.setBodies (h : Inv s) {n : Nat} (hn : s.bodies f ≤ n) (hmade : f ≤ s.made) :
    Inv { s with bodies := Function.update s.bodies f n } := by
  have hle : ∀ f', s.bodies f' ≤ Function.update s.bodies f n f' := by
    intro f'
    by_cases hf : f' = f
    · rw [hf, Function.update_self]
      exact hn
    · rw [Function.update_of_ne hf]
  refine
    { h with
      unmade := fun f' hlt => ⟨(h.unmade f' hlt).1, ?_⟩
      given := fun f' st k hst hbody => (h.given f' st k hst hbody).trans_le (hle f')
      unused := fun f' k hk => h.unused f' k ((hle f').trans hk) }
  exact (Function.update_of_ne (Nat.ne_of_gt (hmade.trans_lt hlt)) _ _).trans (h.unmade f' hlt).2

/-- A worker takes a coroutine, and starts it or goes on with it. -/
theorem Inv.resume (h : Inv s) (hwithin : s.within w = none)
    (hwaiting : (s.status f).bind Status.waiting = some k) :
    Inv ((s.setStatus f (some (.running k))).setWithin w (some f)) := by
  obtain ⟨status, hstatus, hbody⟩ := Option.bind_eq_some_iff.mp hwaiting
  have hhas : status.body = some k ∧ ∀ k', status ≠ .running k' := by
    cases status with
    | new body => exact ⟨hbody, fun _ => Status.noConfusion⟩
    | suspended k' => exact ⟨hbody, fun _ => Status.noConfusion⟩
    | running k' => cases hbody
    | ended => cases hbody
  have hnobody : ∀ w', s.within w' ≠ some f := by
    intro w' hw
    obtain ⟨k', hk'⟩ := (h.running f).mpr ⟨w', hw⟩
    exact hhas.2 k' (Option.some.inj (hstatus.symm.trans hk'))
  have hwithins : ∀ w' f', Function.update s.within w (some f) w' = some f' ↔
      (w' = w ∧ f' = f) ∨ s.within w' = some f' := by
    intro w' f'
    by_cases hw : w' = w
    · subst hw
      simp [hwithin, eq_comm]
    · simp [hw]
  refine h.change (h.made_of_status hstatus) ?_ ?_
    (iff_of_true ⟨k, rfl⟩ ⟨w, Function.update_self _ _ _⟩) ?_ ?_
  · intro st k' heq hbody'
    cases heq
    cases hbody'
    exact h.given f status k hstatus hhas.1
  · intro k' heq
    cases heq
  · intro f' hf
    change (∃ w', Function.update s.within w (some f) w' = _) ↔ _
    simp [hwithins, hf]
  · intro w' w'' f' hw' hw''
    rcases (hwithins w' f').mp hw' with ⟨rfl, rfl⟩ | hold
    · rcases (hwithins w'' f').mp hw'' with ⟨rfl, -⟩ | hold'
      · rfl
      · exact absurd hold' (hnobody w'')
    · rcases (hwithins w'' f').mp hw'' with ⟨-, rfl⟩ | hold'
      · exact absurd hold (hnobody w')
      · exact h.single w' w'' f' hold hold'

/-- A worker leaves its coroutine. -/
theorem Inv.leave (h : Inv s) (hwithin : s.within w = some f) {status : Status}
    (hrunning : s.status f = some (.running k)) (hstatus : status = .suspended k ∨ status = .ended) :
    Inv ((s.setStatus f (some status)).setWithin w none) := by
  have hwithins : ∀ w' f', Function.update s.within w none w' = some f' ↔ w' ≠ w ∧ s.within w' = some f' := by
    intro w' f'
    by_cases hw : w' = w
    · subst hw
      simp
    · simp [hw]
  refine h.change (h.made_of_status hrunning) ?_ ?_ (iff_of_false ?_ ?_) ?_ ?_
  · intro st k' heq hbody
    cases heq
    rcases hstatus with rfl | rfl
    · cases hbody
      exact h.given f _ k hrunning rfl
    · cases hbody
  · intro k' heq
    rcases hstatus with rfl | rfl
    · cases heq
    · cases heq
  · rintro ⟨k', heq⟩
    rcases hstatus with rfl | rfl
    · cases heq
    · cases heq
  · rintro ⟨w', hw'⟩
    obtain ⟨hne, hw'⟩ := (hwithins w' f).mp hw'
    exact hne (h.single w' w f hw' hwithin)
  · intro f' hf
    constructor
    · rintro ⟨w', hw'⟩
      exact ⟨w', ((hwithins w' f').mp hw').2⟩
    · rintro ⟨w', hw'⟩
      refine ⟨w', (hwithins w' f').mpr ⟨?_, hw'⟩⟩
      rintro rfl
      exact hf (Option.some.inj (hw'.symm.trans hwithin))
  · intro w' w'' f' hw' hw''
    exact h.single w' w'' f' ((hwithins w' f').mp hw').2 ((hwithins w'' f').mp hw'').2

theorem Inv.act (h : Inv s) {a : Act} (hact : s.act w a = some t) : Inv t := by
  have hmade : ∀ {f}, (s.status f).any Status.idle = true → f ≤ s.made := by
    intro f hany
    obtain ⟨status, hstatus, -⟩ := (Option.any_eq_true _ _).mp hany
    exact h.made_of_status hstatus
  have hidle : ∀ {f}, (s.status f).any Status.idle = true → ∀ k, s.status f ≠ some (.running k) := by
    intro f hany k hrunning
    rw [hrunning] at hany
    cases hany
  cases a with
  | work =>
      cases hact
      exact h
  | create =>
      cases hact
      have hnone := (h.unmade (s.made + 1) (Nat.lt_succ_self _)).1
      have hmore : Inv { s with made := s.made + 1 } :=
        { h with unmade := fun f hlt => h.unmade f ((Nat.lt_succ_self _).trans hlt) }
      have hgiven : Inv { { s with made := s.made + 1 } with
          bodies := Function.update s.bodies (s.made + 1) 1 } :=
        hmore.setBodies (by rw [(h.unmade (s.made + 1) (Nat.lt_succ_self _)).2]; exact Nat.zero_le _) le_rfl
      refine hgiven.setStatus (f := s.made + 1) (some (.new (some 0))) ?_ ?_ le_rfl ?_ ?_
      · intro k hrunning
        cases hnone.symm.trans hrunning
      · intro k heq
        cases heq
      · intro st k heq hbody
        cases heq
        cases hbody
        change 0 < Function.update s.bodies (s.made + 1) 1 (s.made + 1)
        rw [Function.update_self]
        exact Nat.one_pos
      · intro k heq
        cases heq
        refine h.unused (s.made + 1) 0 ?_
        rw [(h.unmade (s.made + 1) (Nat.lt_succ_self _)).2]
  | give f empty =>
      rw [State.act] at hact
      split at hact
      · next hany =>
        cases hact
        have hgiven := h.setBodies (f := f) (n := s.bodies f + 1) (Nat.le_succ _) (hmade hany)
        refine hgiven.setStatus (f := f) (some (.new (if empty then none else some (s.bodies f))))
          (hidle hany) ?_ (hmade hany) ?_ ?_
        · intro k heq
          cases heq
        · intro st k heq hbody
          cases heq
          change k < Function.update s.bodies f (s.bodies f + 1) f
          rw [Function.update_self]
          cases empty with
          | true => cases hbody
          | false =>
              cases hbody
              exact Nat.lt_succ_self _
        · intro k heq
          cases empty with
          | true => cases heq
          | false =>
              cases heq
              exact h.unused f (s.bodies f) le_rfl
      · cases hact
  | discard f =>
      rw [State.act] at hact
      split at hact
      · next hany =>
        cases hact
        refine h.setStatus none (hidle hany) ?_ (hmade hany) ?_ ?_
        · intro k heq
          cases heq
        · intro st k heq
          cases heq
        · intro k heq
          cases heq
      · cases hact
  | resume f =>
      rw [State.act] at hact
      split at hact
      · next k hwithin hwaiting =>
        cases hact
        exact h.resume hwithin hwaiting
      · cases hact
  | yield =>
      rw [State.act] at hact
      split at hact
      · cases hact
        exact h
      · next f hwithin =>
        split at hact
        · next k hrunning =>
          cases hact
          exact h.leave hwithin hrunning (Or.inl rfl)
        · cases hact
  | finish =>
      rw [State.act] at hact
      split at hact
      · cases hact
      · next f hwithin =>
        cases hact
        obtain ⟨k, hrunning⟩ := (h.running f).mpr ⟨w, hwithin⟩
        exact h.leave hwithin hrunning (Or.inr rfl)

/-- What a worker does leaves alone what the others have. -/
theorem Inv.frame (h : Inv s) {a : Act} (hact : s.act w a = some t) :
    t.place = s.place ∧ t.log = s.log ∧ ∀ w', w' ≠ w → t.within w' = s.within w' ∧
      ∀ f k, s.within w' = some f → s.status f = some (.running k) → t.status f = s.status f := by
  cases a with
  | work =>
      cases hact
      exact ⟨rfl, rfl, fun w' _ => ⟨rfl, fun _ _ _ _ => rfl⟩⟩
  | create =>
      cases hact
      refine ⟨rfl, rfl, fun w' _ => ⟨rfl, fun f k _ hrunning => Function.update_of_ne ?_ _ _⟩⟩
      rintro rfl
      cases ((h.unmade (s.made + 1) (Nat.lt_succ_self _)).1).symm.trans hrunning
  | give f empty =>
      rw [State.act] at hact
      split at hact
      · next hany =>
        cases hact
        refine ⟨rfl, rfl, fun w' _ => ⟨rfl, fun f' k _ hrunning => Function.update_of_ne ?_ _ _⟩⟩
        rintro rfl
        rw [hrunning] at hany
        cases hany
      · cases hact
  | discard f =>
      rw [State.act] at hact
      split at hact
      · next hany =>
        cases hact
        refine ⟨rfl, rfl, fun w' _ => ⟨rfl, fun f' k _ hrunning => Function.update_of_ne ?_ _ _⟩⟩
        rintro rfl
        rw [hrunning] at hany
        cases hany
      · cases hact
  | resume f =>
      rw [State.act] at hact
      split at hact
      · next k hwithin hwaiting =>
        cases hact
        refine ⟨rfl, rfl, fun w' hw => ⟨Function.update_of_ne hw _ _, fun f' k' _ hrunning =>
          Function.update_of_ne ?_ _ _⟩⟩
        rintro rfl
        rw [hrunning] at hwaiting
        cases hwaiting
      · cases hact
  | yield =>
      rw [State.act] at hact
      split at hact
      · cases hact
        exact ⟨rfl, rfl, fun w' _ => ⟨rfl, fun _ _ _ _ => rfl⟩⟩
      · next f hwithin =>
        split at hact
        · next k hrunning =>
          cases hact
          refine ⟨rfl, rfl, fun w' hw => ⟨Function.update_of_ne hw _ _, fun f' k' hw' _ =>
            Function.update_of_ne ?_ _ _⟩⟩
          rintro rfl
          exact hw (h.single w' w f' hw' hwithin)
        · cases hact
  | finish =>
      rw [State.act] at hact
      split at hact
      · cases hact
      · next f hwithin =>
        cases hact
        refine ⟨rfl, rfl, fun w' hw => ⟨Function.update_of_ne hw _ _, fun f' k' hw' _ =>
          Function.update_of_ne ?_ _ _⟩⟩
        rintro rfl
        exact hw (h.single w' w f' hw' hwithin)

theorem inv_of_reached (h : Reached s) : Inv s := by
  apply Transition.Reachable.invariant (fun _ hnew => Inv.init hnew) _ h
  rintro s ⟨w, a⟩ t hs hstep
  obtain ⟨c, hactive, hact⟩ := Option.bind_eq_some_iff.mp hstep
  exact (hs.execute hactive).act hact

end Coroutine
