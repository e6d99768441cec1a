import AsyncRPC.PoolFibers

/-!
# Deadlock of the connection pool

A call that awaits the response of the registry has `connect_mutex_`, and only `handleRecv` can bring
the response. So the two are safe from each other as long as `handleRecv` is not on its way to that
mutex. The orderly steps keep it so, whatever the rest does.
-/

namespace AsyncRPC.PoolFibers

open Transition

variable {Name Addr : Type} {s t : State Name Addr}

theorem RecvPc.bound_of_wantsConnect {pc : RecvPc Name Addr} (h : pc.wantsConnect = true) :
    pc.bound = true := by
  cases pc with
  | locking name serviceLaunch addr => rfl
  | closing => rfl
  | receiving | answering | inClose | stopped => cases h
  | publishing name serviceLaunch addr | inCallback name serviceLaunch addr => cases h
  | finding name found => cases h
  | pushing found => cases h

namespace State

def Clear (s : State Name Addr) : Prop := s.Awaits → s.recv.bound = false

theorem clear_of_new (h : New s) : s.Clear := by
  intro _
  rw [h.recv]
  rfl

theorem Clear.not_deadlocked (h : s.Clear) : ¬ s.Deadlocked := by
  intro hdead
  obtain ⟨name, hcall⟩ := hdead.call
  have hawaits : s.Awaits := ⟨hdead.taken, by rw [hcall]; rfl, hdead.empty⟩
  have hfree := h hawaits
  rw [RecvPc.bound_of_wantsConnect hdead.recv] at hfree
  cases hfree

theorem clear_of_asks (h : s.call.asks = false) : s.Clear := by
  rintro ⟨-, hasks, -⟩
  rw [h] at hasks
  cases hasks

theorem clear_of_bound (h : s.recv.bound = false) : s.Clear := fun _ => h

/-- A step after which nobody newly awaits anything or is on its way. -/
theorem Clear.mono (h : s.Clear) (hawaits : t.Awaits → s.Awaits) (hrecv : t.recv = s.recv) :
    t.Clear := by
  intro ht
  rw [hrecv]
  exact h (hawaits ht)

theorem push_eq {request : Request Name} (h : s.push request = some t) :
    ∃ channel, t = { s with channel := channel } := by
  rw [push] at h
  split at h
  · cases h
    exact ⟨_, rfl⟩
  · split at h
    · cases h
      exact ⟨_, rfl⟩
    · cases h

theorem clear_receive (horderly : s.Orderly .receive) (hstep : s.receive = some t) : t.Clear := by
  rw [receive] at hstep
  split at hstep
  · split at hstep
    · next hinbox =>
      cases hstep
      intro ht
      have hresponse := horderly ht
      rw [hinbox] at hresponse
      cases hresponse
    · cases hstep
      exact clear_of_bound rfl
    · next hinbox =>
      split at hstep
      · cases hstep
      · cases hstep
        intro ht
        have hresponse := horderly ht
        rw [hinbox] at hresponse
        cases hresponse
  · cases hstep

variable [DecidableEq Name] [DecidableEq Addr]

theorem clear_caller (h : s.Clear) (horderly : s.Orderly .caller) (hstep : s.caller = some t) :
    t.Clear := by
  cases hcall : s.call with
  | idle => simp [caller, hcall] at hstep
  | calling name => simp [caller, hcall] at hstep
  | connecting name => simp [caller, hcall] at hstep
  | callingNew => simp [caller, hcall] at hstep
  | locking name =>
      simp only [caller, hcall] at hstep
      split at hstep
      · cases hstep
      · cases hstep
        exact clear_of_asks rfl
  | entered name =>
      simp only [caller, hcall] at hstep
      split at hstep
      · cases hstep
        exact clear_of_asks rfl
      · cases hstep
        exact clear_of_asks rfl
  | relocking name =>
      simp only [caller, hcall] at hstep
      split at hstep
      · cases hstep
      · cases hstep
        exact clear_of_asks rfl
  | removing name =>
      simp only [caller, hcall, Option.some.injEq] at hstep
      subst hstep
      exact clear_of_asks rfl
  | looking name =>
      simp only [caller, hcall] at hstep
      split at hstep
      · cases hstep
        exact clear_of_asks rfl
      · split at hstep
        · cases hstep
          exact clear_of_asks rfl
        · cases hstep
          exact clear_of_asks rfl
  | discovering name =>
      simp only [caller, hcall] at hstep
      split at hstep
      · cases hstep
        exact clear_of_asks rfl
      · cases hstep
        rintro ⟨htaken, -, -⟩
        exact horderly (by rw [hcall]; rfl) htaken
  | emplacing name =>
      simp only [caller, hcall] at hstep
      split at hstep
      · cases hstep
      · cases hstep
        exact h.mono (fun ht => ⟨ht.1, by rw [hcall]; rfl, ht.2.2⟩) rfl
  | sending name =>
      simp only [caller, hcall] at hstep
      obtain ⟨channel, rfl⟩ := push_eq hstep
      exact h.mono (fun ht => ⟨ht.1, by rw [hcall]; rfl, ht.2.2⟩) rfl
  | waiting name =>
      simp only [caller, hcall] at hstep
      split at hstep
      · cases hstep
      · cases hstep
        exact clear_of_asks rfl
  | erasing name found =>
      simp only [caller, hcall] at hstep
      split at hstep
      · cases hstep
      · cases hstep
        refine clear_of_asks ?_
        cases found with
        | none => rfl
        | some result =>
            simp only
            split
            · rfl
            · rfl
  | subscribing name result =>
      simp only [caller, hcall] at hstep
      split at hstep
      · cases hstep
      · split at hstep
        · cases hstep
        · cases hstep
          exact clear_of_asks rfl
  | requesting name result =>
      simp only [caller, hcall] at hstep
      obtain ⟨channel, rfl⟩ := push_eq hstep
      exact clear_of_asks rfl
  | assigning name result =>
      simp only [caller, hcall, Option.some.injEq] at hstep
      subst hstep
      refine clear_of_asks ?_
      simp only
      split
      · rfl
      · rfl
  | leaving code =>
      simp only [caller, hcall, Option.some.injEq] at hstep
      subst hstep
      exact clear_of_asks rfl

theorem clear_receiver (h : s.Clear) (hstep : s.receiver = some t) : t.Clear := by
  cases hrecv : s.recv with
  | receiving => simp [receiver, hrecv] at hstep
  | stopped => simp [receiver, hrecv] at hstep
  | publishing name serviceLaunch addr =>
      simp only [receiver, hrecv] at hstep
      split at hstep
      · cases hstep
      · split at hstep
        · cases hstep
          -- it was on its way before, so nobody awaits a response
          intro ht
          have hfree := h ht
          rw [hrecv] at hfree
          cases hfree
        · cases hstep
          exact clear_of_bound rfl
  | locking name serviceLaunch addr =>
      simp only [receiver, hrecv] at hstep
      split at hstep
      · cases hstep
      · cases hstep
        exact clear_of_bound rfl
  | inCallback name serviceLaunch addr =>
      simp only [receiver, hrecv, Option.some.injEq] at hstep
      subst hstep
      exact clear_of_bound rfl
  | answering =>
      simp only [receiver, hrecv] at hstep
      obtain ⟨channel, rfl⟩ := push_eq hstep
      exact clear_of_bound rfl
  | finding name found =>
      simp only [receiver, hrecv] at hstep
      split at hstep
      · cases hstep
      · split at hstep
        · cases hstep
          exact clear_of_bound rfl
        · cases hstep
          exact clear_of_bound rfl
  | pushing found =>
      simp only [receiver, hrecv] at hstep
      split at hstep
      · cases hstep
        exact clear_of_bound rfl
      · cases hstep
  | closing =>
      simp only [receiver, hrecv] at hstep
      split at hstep
      · cases hstep
      · cases hstep
        exact clear_of_bound rfl
  | inClose =>
      simp only [receiver, hrecv, Option.some.injEq] at hstep
      subst hstep
      exact clear_of_bound rfl

theorem clear_step {l : Label Name Addr} (h : s.Clear) (horderly : s.Orderly l) (hstep : s.Step l t) :
    t.Clear := by
  rw [Step] at hstep
  cases l with
  | call name =>
      simp only [step] at hstep
      split at hstep
      · cases hstep
        exact clear_of_asks rfl
      · cases hstep
  | caller => exact clear_caller h horderly hstep
  | answered code =>
      simp only [step] at hstep
      split at hstep
      · cases hstep
        refine clear_of_asks ?_
        simp only
        split
        · rfl
        · rfl
      · cases hstep
        exact clear_of_asks rfl
      · cases hstep
  | connect addr =>
      simp only [step] at hstep
      split at hstep
      · cases hstep
        exact clear_of_asks rfl
      · split at hstep
        · cases hstep
          exact clear_of_asks rfl
        · cases hstep
      · cases hstep
  | send =>
      simp only [step] at hstep
      split at hstep
      · cases hstep
      · next request rest _ =>
        cases hstep
        split
        · cases request with
          | discover name => exact h.mono id rfl
          | subscribe name => exact h.mono id rfl
          | publishResponse => exact h.mono id rfl
        · exact h.mono id rfl
  | receive => exact clear_receive horderly hstep
  | receiver => exact clear_receiver h hstep
  | notice name serviceLaunch addr =>
      simp only [step] at hstep
      split at hstep
      · cases hstep
        exact h.mono id rfl
      · cases hstep
  | respond name found =>
      simp only [step] at hstep
      split at hstep
      · cases hstep
        exact h.mono id rfl
      · cases hstep
  | disconnect =>
      simp only [step] at hstep
      split at hstep
      · cases hstep
        exact h.mono id rfl
      · cases hstep

/-- In every run of orderly steps the call and `handleRecv` are never stuck on each other. -/
theorem not_deadlocked_of_orderly {Name Addr : Type} [DecidableEq Name] [DecidableEq Addr]
    (s : State Name Addr) (hreach : Reachable (Guarded Orderly Step) New s) : ¬ s.Deadlocked := by
  have hclear : s.Clear := by
    refine hreach.invariant (fun _ => clear_of_new) ?_
    rintro s l t h ⟨horderly, hstep⟩
    exact clear_step h horderly hstep
  exact hclear.not_deadlocked

section Examples

def newPool : State Nat Nat :=
  { connectMutex := false, methodMapMutex := false, subscribeHandleMutex := false,
    serviceMap := fun _ => none, addressMap := fun _ => [], methodMap := fun _ => false,
    recvChan := [], subscribeHandle := fun _ => false, isClosed := false, channel := [], call := .idle,
    recv := .receiving, result := none, open_ := true, requests := [], subscribers := fun _ => false,
    inbox := [] }

theorem new_newPool : New newPool :=
  ⟨rfl, rfl, rfl, fun _ => rfl, fun _ => rfl, fun _ => rfl, fun _ => rfl, rfl, rfl, rfl, rfl, rfl,
    fun _ => rfl, rfl⟩

/-- A call asks the registry for the service and waits. -/
def asked : List (Label Nat Nat) := .call 5 :: List.replicate 6 .caller ++ [.send]

/-- The registry lists an address; the call subscribes, connects and returns, and then a notice says
that the address has quit. -/
def answeredThenNotified : List (Label Nat Nat) :=
  asked ++ [.respond 5 (some [1]), .receive, .receiver, .receiver] ++ List.replicate 5 .caller ++
    [.send, .connect (some 1), .answered .success, .caller, .notice 5 false 2, .receive, .receiver,
      .receiver, .receiver, .receiver]

theorem not_deadlocked_of_orderly_notified :
    ∃ s : State Nat Nat, Reachable (Guarded Orderly Step) New s ∧ s.result = some .success ∧
      s.addressMap 5 = [1, 2] ∧ ¬ s.Deadlocked := by
  obtain ⟨s, hrun, hvalue⟩ : ∃ s,
      answeredThenNotified.foldlM (guarded Orderly step) newPool = some s ∧
        (s.result, s.addressMap 5) = (some .success, [1, 2]) :=
    Option.map_eq_some_iff.mp (by decide)
  have hreach : Reachable (Guarded Orderly Step) New s :=
    .of_run guarded_step (.start new_newPool) hrun
  obtain ⟨hresult, haddrs⟩ := Prod.mk.inj hvalue
  exact ⟨s, hreach, hresult, haddrs, not_deadlocked_of_orderly s hreach⟩

/-- The registry disconnects before it answers. -/
def hungUp : List (Label Nat Nat) := asked ++ [.disconnect, .receive]

theorem deadlocked_disconnect : ∃ s : State Nat Nat, Reachable Step New s ∧ s.Deadlocked := by
  obtain ⟨s, hrun, hvalue⟩ : ∃ s,
      hungUp.foldlM step newPool = some s ∧
        (s.recv, s.connectMutex, s.call, s.recvChan.isEmpty) = (.closing, true, .waiting 5, true) :=
    Option.map_eq_some_iff.mp (by decide)
  simp only [Prod.mk.injEq] at hvalue
  obtain ⟨hrecv, htaken, hcall, hempty⟩ := hvalue
  refine ⟨s, .of_run (fun _ _ _ hstep => hstep) (.start new_newPool) hrun, ?_⟩
  exact ⟨by rw [hrecv]; rfl, htaken, ⟨5, hcall⟩, List.isEmpty_iff.mp hempty⟩

end Examples

end State

end AsyncRPC.PoolFibers
