import AsyncRPC.Proof.ServiceRegistry
import AsyncRPC.Unregister

/-!
# What a provider's leaving does

The loop erases what is recorded and publishes once for each, but it reads the name of an entry after
it has erased the entry.
-/

namespace AsyncRPC.ServiceRegistry

open Outcome

namespace Registry

variable {Conn : Type} [DecidableEq Conn] {r : Registry Conn}

/-- The record changes nothing of what the loop does. -/
theorem withdraw_loop_fst (env : Env) (address : Bytes) (its : List Nat)
    (s : Registry Conn × List Access) :
    (its.foldlM (withdraw env address) s >>= fun s => .ok s.1) =
      its.foldlM (unregister env address) s.1 := by
  induction its generalizing s with
  | nil => rfl
  | cons i its ih =>
      rw [List.foldlM_cons, List.foldlM_cons, withdraw, unregister]
      cases publish env { s.1 with service := s.1.service.eraseP fun e => e.iter = i }
        (rpcServiceSubscribe ++ env.freed i) (false, address) with
      | error crash => rfl
      | ok r' => exact ih _

theorem withdrawService_none (env : Env) {providerAddr : IPv4Address}
    (h : r.iters providerAddr.toString = none) : r.withdrawService env providerAddr = .ok (r, []) := by
  simp only [withdrawService, h]

theorem withdrawService_some (env : Env) {providerAddr : IPv4Address} {its : List Nat}
    (h : r.iters providerAddr.toString = some its) :
    r.withdrawService env providerAddr =
      its.foldlM (withdraw env providerAddr.toString) (r, []) >>= fun s => .ok
        ({ s.1 with iters := Function.update s.1.iters providerAddr.toString none }, s.2) := by
  simp only [withdrawService, h]

/-- With the record, the handler does what it does without. -/
theorem withdrawService_fst (env : Env) (r : Registry Conn) (providerAddr : IPv4Address) :
    (r.withdrawService env providerAddr >>= fun s => .ok s.1) =
      r.handleUnregisterService env providerAddr := by
  rw [handleUnregisterService]
  cases hits : r.iters providerAddr.toString with
  | none =>
      rw [withdrawService_none env hits]
      rfl
  | some its =>
      have hloop := withdraw_loop_fst env providerAddr.toString its (r, [])
      rw [withdrawService_some env hits]
      simp only
      rw [← hloop]
      cases its.foldlM (withdraw env providerAddr.toString) (r, []) <;> rfl

/-- What the loop leaves, and what it has done on the way. -/
theorem withdraw_loop (env : Env) (address : Bytes) (haddress : address.length < 2 ^ 40)
    (its : List Nat) (log : List Access) (hnodup : (r.service.map Entry.iter).Nodup) :
    ∃ r' done, its.foldlM (withdraw env address) (r, log) = .ok (r', log ++ done) ∧
      r'.service = r.service.filter (fun e => !decide (e.iter ∈ its)) ∧
      done.filterMap Access.notice? =
        its.map (fun i => (rpcServiceSubscribe ++ env.freed i, false, address)) ∧
      (∀ i service, .first i service ∈ done → i ∈ its ∧ ¬ ∃ e ∈ service, e.iter = i) ∧
      ∀ i ∈ its, ∃ service, .first i service ∈ done := by
  induction its generalizing r log with
  | nil => exact ⟨r, [], by simp [pure, Except.pure], by simp, rfl, by simp, by simp⟩
  | cons i its ih =>
      obtain ⟨r₁, hrun, hquiet⟩ := publish_spec env
        { r with service := r.service.eraseP fun e => e.iter = i } (length_key (env.freed_length i))
        false haddress
      have herased : r.service.eraseP (fun e => e.iter = i) =
          r.service.filter fun e => !decide (e.iter = i) :=
        Bag.eraseP_eq_filter hnodup i
      have hservice : r₁.service = r.service.filter fun e => !decide (e.iter = i) := by
        rw [hquiet.service]
        exact herased
      let now : List Access :=
        [.erase i, .first i (r.service.eraseP fun e => e.iter = i),
          .publish (rpcServiceSubscribe ++ env.freed i) (false, address)]
      obtain ⟨r₂, done, hrest, hrestService, hnotices, hdead, hread⟩ :=
        ih (log ++ now) (hservice ▸ Bag.nodup_map_filter hnodup _)
      refine ⟨r₂, now ++ done, ?_, ?_, ?_, ?_, ?_⟩
      · rw [List.foldlM_cons, withdraw, hrun, ← List.append_assoc]
        exact hrest
      · rw [hrestService, hservice, List.filter_filter]
        apply List.filter_congr
        intro e _
        simp [List.mem_cons, Bool.and_comm]
      · rw [List.filterMap_append, hnotices, List.map_cons]
        rfl
      · intro j service hj
        rcases List.mem_append.mp hj with hj | hj
        · have hfirst : j = i ∧ service = r.service.eraseP fun e => e.iter = i := by
            simpa [now] using hj
          obtain ⟨rfl, rfl⟩ := hfirst
          refine ⟨List.mem_cons_self, ?_⟩
          rintro ⟨e, he, hiter⟩
          rw [herased] at he
          simpa [hiter] using (List.mem_filter.mp he).2
        · obtain ⟨hmem, hgone⟩ := hdead j service hj
          exact ⟨List.mem_cons_of_mem i hmem, hgone⟩
      · intro j hj
        rcases List.mem_cons.mp hj with rfl | hj
        · exact ⟨r.service.eraseP fun e => e.iter = j, by simp [now]⟩
        · obtain ⟨service, hservice⟩ := hread j hj
          exact ⟨service, List.mem_append_right now hservice⟩

/-- The recorded entries go, and one notice goes out for each, under what `i->first` reads by then. -/
theorem withdrawService_spec (env : Env) (hnodup : (r.service.map Entry.iter).Nodup)
    (providerAddr : IPv4Address) :
    ∃ r' log, r.withdrawService env providerAddr = .ok (r', log) ∧
      r'.service =
        r.service.filter (fun e => !decide (e.iter ∈ r.recorded providerAddr.toString)) ∧
      log.filterMap Access.notice? = (r.recorded providerAddr.toString).map (fun i =>
        (rpcServiceSubscribe ++ env.freed i, false, providerAddr.toString)) ∧
      (∀ i service, .first i service ∈ log →
        i ∈ r.recorded providerAddr.toString ∧ ¬ ∃ e ∈ service, e.iter = i) ∧
      ∀ i ∈ r.recorded providerAddr.toString, ∃ service, .first i service ∈ log := by
  have haddress : providerAddr.toString.length < 2 ^ 40 :=
    Nat.lt_of_le_of_lt (length_toString providerAddr) (by decide)
  cases hits : r.iters providerAddr.toString with
  | none =>
      rw [recorded, hits]
      exact ⟨r, [], withdrawService_none env hits, by simp, rfl, by simp, by simp⟩
  | some its =>
      rw [recorded, hits]
      obtain ⟨r', done, hrun, hspec⟩ :=
        withdraw_loop env providerAddr.toString haddress its [] hnodup
      refine ⟨{ r' with iters := Function.update r'.iters providerAddr.toString none }, done, ?_,
        hspec⟩
      rw [withdrawService_some env hits, hrun]
      rfl

/-- Where something is recorded, a name is read from an entry that is gone. -/
theorem not_withdraws (env : Env) (hnodup : (r.service.map Entry.iter).Nodup)
    {providerAddr : IPv4Address} (hne : r.recorded providerAddr.toString ≠ []) :
    ¬ ∃ r' log, r.withdrawService env providerAddr = .ok (r', log) ∧
      r.Withdraws providerAddr.toString r' log := by
  rintro ⟨r', log, hrun, hwithdraws⟩
  obtain ⟨r'', log', hrun', -, -, hgone, hread⟩ := withdrawService_spec env hnodup providerAddr
  cases hrun'.symm.trans hrun
  obtain ⟨i, hi⟩ := List.exists_mem_of_ne_nil _ hne
  obtain ⟨service, hfirst⟩ := hread i hi
  exact (hgone i service hfirst).2 (hwithdraws.first i service hfirst)

/-- **A provider leaves.** Its recorded entries go, and for each a notice goes out, but under a name
that is read from an entry already erased: what the handler should do, it does just when nothing is
recorded for the provider. -/
theorem withdraws_iff (env : Env) (r : Registry Conn) (hnodup : (r.service.map Entry.iter).Nodup)
    (providerAddr : IPv4Address) :
    (∃ r' log, r.withdrawService env providerAddr = .ok (r', log) ∧
        r.Withdraws providerAddr.toString r' log) ↔
      r.recorded providerAddr.toString = [] := by
  constructor
  · intro h
    by_contra hne
    exact not_withdraws env hnodup hne h
  · intro h
    obtain ⟨r', log, hrun, hservice, hnotices, hgone, -⟩ :=
      withdrawService_spec env hnodup providerAddr
    refine ⟨r', log, hrun, hservice, ?_, ?_⟩
    · rw [hnotices, h]
      simp
    · intro i service hfirst
      have hmem := (hgone i service hfirst).1
      rw [h] at hmem
      cases hmem

/-- A registry at which one provider has registered one service. -/
def oneService : Registry Bool :=
  init.emplace false (ascii "echo") (hostA.setPort 80#16).toString

theorem withdraws_iff_oneService :
    (∃ r' log, oneService.withdrawService plainEnv (hostA.setPort 81#16) = .ok (r', log) ∧
        oneService.Withdraws (hostA.setPort 81#16).toString r' log) ↔
      oneService.recorded (hostA.setPort 81#16).toString = [] :=
  withdraws_iff plainEnv oneService (by decide) (hostA.setPort 81#16)

/-- That provider leaves. -/
theorem not_withdraws_oneService :
    ¬ ∃ r' log, oneService.withdrawService plainEnv (hostA.setPort 80#16) = .ok (r', log) ∧
      oneService.Withdraws (hostA.setPort 80#16).toString r' log :=
  not_withdraws plainEnv (by decide) (by decide)

end Registry

end AsyncRPC.ServiceRegistry
