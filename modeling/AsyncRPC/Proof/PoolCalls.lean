import AsyncRPC.Lib.Parties
import AsyncRPC.PoolCalls

/-!
# Which entry a failed call removes

As long as no two calls fail on one client, at most one call is between its failure and the removal,
and its entry stays until then. That does not even take `connect_mutex_`.
-/

namespace AsyncRPC.PoolCalls

open Transition

namespace State

variable {C Addr : Type} [DecidableEq C] [DecidableEq Addr] {s t : State C Addr} {c : C}
  {service : Entry Addr}

structure Inv (s : State C Addr) : Prop where
  stands : ∀ c service, (s.pc c).closed = some service → s.serviceMap = some service
  single : ∀ c g service, (s.pc c).closed = some service → (s.pc g).closed = some service → c = g

omit [DecidableEq C] [DecidableEq Addr] in
theorem inv_of_new (h : New s) : s.Inv where
  stands c service hc := by
    rw [h.pc c] at hc
    cases hc
  single c g service hc := by
    rw [h.pc c] at hc
    cases hc

omit [DecidableEq C] [DecidableEq Addr] in
theorem Inv.sound (h : s.Inv) : s.Sound where
  dereferences c service hc := h.stands c service (by rw [hc]; rfl)
  erases c service hc := h.stands c service (by rw [hc]; rfl)

omit [DecidableEq Addr] in
/-- A call that goes on without failing. -/
theorem Inv.goto (h : s.Inv) {pc : Pc Addr} (hpc : pc.closed = none ∨ pc.closed = (s.pc c).closed)
    (ht : t.pc = Function.update s.pc c pc) (hmap : t.serviceMap = s.serviceMap) : t.Inv := by
  have hold : ∀ g service, (t.pc g).closed = some service → (s.pc g).closed = some service := by
    intro g service hg
    rw [ht] at hg
    refine Parties.of_update (fun pc : Pc Addr => pc.closed = some service) (fun hself => ?_) hg
    rcases hpc with hnone | hsame
    · cases hnone.symm.trans hself
    · exact hsame.symm.trans hself
  refine ⟨fun g service hg => ?_, fun g g' service hg hg' => ?_⟩
  · rw [hmap]
    exact h.stands g service (hold g service hg)
  · exact h.single g g' service (hold g service hg) (hold g' service hg')

omit [DecidableEq Addr] in
theorem Inv.fail (h : s.Inv) (hmap : s.serviceMap = some service)
    (halone : ∀ g, (s.pc g).closed ≠ some service) : (s.goto c (.relocking service)).Inv := by
  have hnone : ∀ g service', (s.pc g).closed ≠ some service' := by
    intro g service' hg
    have hstands := h.stands g service' hg
    rw [hmap] at hstands
    cases hstands
    exact halone g hg
  have hown : ∀ g service', ((s.goto c (.relocking service)).pc g).closed = some service' →
      g = c ∧ service' = service := by
    intro g service' hg
    rcases Parties.cases_update (fun pc : Pc Addr => pc.closed = some service') hg with
      ⟨hgc, hself⟩ | ⟨-, hg⟩
    · exact ⟨hgc, (Option.some.inj hself).symm⟩
    · exact absurd hg (hnone g service')
  refine ⟨fun g service' hg => ?_, fun g g' service' hg hg' => ?_⟩
  · obtain ⟨-, rfl⟩ := hown g service' hg
    exact hmap
  · exact (hown g service' hg).1.trans (hown g' service' hg').1.symm

omit [DecidableEq Addr] in
theorem Inv.erase (h : s.Inv) (hc : s.pc c = .erasing service) :
    ({ s.goto c .looking with serviceMap := none } : State C Addr).Inv := by
  have hown : (s.pc c).closed = some service := by
    rw [hc]
    rfl
  have hnone : ∀ g service', (Function.update s.pc c .looking g).closed ≠ some service' := by
    intro g service' hg
    have hnew : ¬ (Pc.looking : Pc Addr).closed = some service' := fun hself => by cases hself
    obtain ⟨hgc, hg⟩ := Parties.of_update_not (fun pc : Pc Addr => pc.closed = some service') hnew hg
    have hsame := (h.stands c service hown).symm.trans (h.stands g service' hg)
    cases hsame
    exact hgc (h.single g c service hg hown)
  exact ⟨fun g service' hg => absurd hg (hnone g service'),
    fun g _ service' hg => absurd hg (hnone g service')⟩

omit [DecidableEq Addr] in
/-- A new client is stored only where there is no entry. -/
theorem Inv.store (h : s.Inv) {pc : Pc Addr} (hpc : pc.closed = none) (new : Entry Addr)
    (ht : t.pc = Function.update s.pc c pc) (hmap : t.serviceMap = s.serviceMap.or (some new)) :
    t.Inv := by
  have hold : ({ s with pc := t.pc } : State C Addr).Inv := h.goto (Or.inl hpc) ht rfl
  refine ⟨fun g service hg => ?_, hold.single⟩
  rw [hmap, hold.stands g service hg]
  rfl

omit [DecidableEq Addr] in
theorem Inv.lock (h : s.Inv) {pc : Pc Addr} (hpc : pc.closed = none ∨ pc.closed = (s.pc c).closed)
    (hstep : s.lock c pc = some t) : t.Inv := by
  rw [State.lock] at hstep
  split at hstep
  · cases hstep
  · cases hstep
    exact h.goto hpc rfl rfl

theorem inv_advance (h : s.Inv) (hstep : s.advance c = some t) : t.Inv := by
  cases hpc : s.pc c with
  | locking =>
      simp only [State.advance, hpc] at hstep
      exact h.lock (Or.inl rfl) hstep
  | entered =>
      simp only [State.advance, hpc] at hstep
      split at hstep
      · cases hstep
        exact h.goto (Or.inl rfl) rfl rfl
      · cases hstep
        exact h.goto (Or.inl rfl) rfl rfl
  | found service =>
      simp only [State.advance, hpc] at hstep
      cases hstep
      exact h.goto (Or.inl rfl) rfl rfl
  | relocking service =>
      simp only [State.advance, hpc] at hstep
      exact h.lock (Or.inr (by rw [hpc]; rfl)) hstep
  | removing service =>
      simp only [State.advance, hpc] at hstep
      cases hstep
      exact h.goto (Or.inr (by rw [hpc]; rfl)) rfl rfl
  | erasing service =>
      simp only [State.advance, hpc] at hstep
      cases hstep
      exact h.erase hpc
  | looking =>
      simp only [State.advance, hpc] at hstep
      split at hstep
      · cases hstep
        exact h.goto (Or.inl rfl) rfl rfl
      · split at hstep
        · cases hstep
          exact h.goto (Or.inl rfl) rfl rfl
        · cases hstep
          exact h.goto (Or.inl rfl) rfl rfl
  | leaving code =>
      simp only [State.advance, hpc] at hstep
      cases hstep
      exact h.goto (Or.inl rfl) rfl rfl
  | idle | calling service | discovering | connecting | callingNew =>
      simp only [State.advance, hpc] at hstep
      cases hstep

theorem inv_step (h : s.Inv) {l : Label C Addr} (halone : s.Alone l) (hstep : s.step l = some t) :
    t.Inv := by
  cases l with
  | call c =>
      simp only [step] at hstep
      split at hstep
      · cases hstep
        exact h.goto (Or.inl rfl) rfl rfl
      · cases hstep
  | next c => exact inv_advance h hstep
  | answered c code =>
      simp only [step] at hstep
      split at hstep
      · next service hpc =>
        cases hstep
        split
        · next hclosed =>
          obtain ⟨hmap, hothers⟩ := halone service hpc hclosed
          exact h.fail hmap hothers
        · exact h.goto (Or.inl rfl) rfl rfl
      · cases hstep
        exact h.goto (Or.inl rfl) rfl rfl
      · cases hstep
  | discovered c addrs =>
      simp only [step] at hstep
      split at hstep
      · cases hstep
        refine h.goto (Or.inl ?_) rfl rfl
        split
        · rfl
        · rfl
      · cases hstep
  | connect c addr =>
      simp only [step] at hstep
      split at hstep
      · cases hstep
        exact h.goto (Or.inl rfl) rfl rfl
      · next addr _ =>
        split at hstep
        · cases hstep
          have hcalling : (Pc.callingNew : Pc Addr).closed = none := rfl
          exact h.store hcalling ⟨s.clients, addr⟩ rfl rfl
        · cases hstep
      · cases hstep
  | disconnect =>
      cases hstep
      exact ⟨h.stands, h.single⟩

section Examples

def newPool : State Bool Nat :=
  { connectMutex := false, serviceMap := none, addressMap := [], registered := true, clients := 0,
    pc := fun _ => .idle, result := fun _ => none }

theorem new_newPool : New newPool := ⟨rfl, rfl, rfl, fun _ => rfl⟩

/-- A call that connects to an address. -/
def connects (c : Bool) (addr : Nat) : List (Label Bool Nat) :=
  [.call c, .next c, .next c, .next c, .discovered c [addr], .connect c (some addr),
    .answered c .success, .next c]

/-- A call that is in the client it has found. -/
def calls (c : Bool) : List (Label Bool Nat) := [.call c, .next c, .next c, .next c]

/-- One call fails and is about to remove the entry, while another still waits for the client. -/
def failsAlone : List (Label Bool Nat) :=
  connects false 1 ++ calls false ++ calls true ++ [.answered false .closed, .next false, .next false]

/-- Two calls fail on one client; the first removes its entry and stores a new one. -/
def bothFail : List (Label Bool Nat) :=
  connects false 1 ++ calls false ++ calls true ++
    [.answered false .closed, .answered true .closed, .next false, .next false, .next false,
      .next false, .discovered false [2], .connect false (some 2), .next true]

end Examples

end State

end AsyncRPC.PoolCalls
