import AsyncRPC.Lib.Parties
import AsyncRPC.Proof.RpcServer
import AsyncRPC.Publish

/-!
# Who a publication reaches

As long as no session subscribes behind another one's entry, everyone who has subscribed and is
connected has an entry in the table: cleaning takes out only entries of sessions that are not.
-/

namespace AsyncRPC.Publish

open ServiceRegistry RpcServer Transition

namespace State

variable {Conn P : Type} {env : Env} {s t : State Conn P}

theorem mem_subscribers {key : Bytes} {c : Conn} : c ∈ s.subscribers key ↔ (key, c) ∈ s.subscribed := by
  simp [subscribers]

structure Inv (s : State Conn P) : Prop where
  entry : ∀ key c, (key, c) ∈ s.subscribed → s.isConnected c = true →
    (key, c) ∈ s.server.subscribes
  known : ∀ key c, (key, c) ∈ s.subscribed → s.status c ≠ .unknown
  sending : ∀ p key content subscribers, s.pc p = .sending key content subscribers →
    ∀ c ∈ subscribers, (key, c) ∈ s.subscribed
  delivered : s.Delivered

theorem inv_of_new (h : New s) : s.Inv where
  entry key c hc := by
    rw [h.subscribed] at hc
    cases hc
  known key c hc := by
    rw [h.subscribed] at hc
    cases hc
  sending p key content subscribers hp := by
    rw [h.pc p] at hp
    cases hp
  delivered p content owed sent hp := by
    rw [h.pc p] at hp
    cases hp

/-- The entries that are left are enough for those who are connected. -/
theorem Inv.table (h : s.Inv) (hpc : t.pc = s.pc) (hsubscribed : ∀ x ∈ s.subscribed, x ∈ t.subscribed)
    (hentry : ∀ key c, (key, c) ∈ t.subscribed → t.isConnected c = true →
      (key, c) ∈ t.server.subscribes)
    (hknown : ∀ key c, (key, c) ∈ t.subscribed → t.status c ≠ .unknown) : t.Inv where
  entry := hentry
  known := hknown
  sending p key content subscribers hp c hc := by
    rw [hpc] at hp
    exact hsubscribed _ (h.sending p key content subscribers hp c hc)
  delivered p content owed sent hp := by
    rw [hpc] at hp
    exact h.delivered p content owed sent hp

theorem mem_emplace_of_mem {server : Server Conn} {key : Bytes} {c : Conn} {x : Bytes × Conn}
    (hx : x ∈ server.subscribes) : x ∈ (server.emplace env key c).subscribes := by
  rw [Server.emplace]
  split
  · exact hx
  · exact (env.order.perm _ _ _).mem_iff.mpr (List.mem_cons_of_mem _ hx)

theorem mem_emplace_self {server : Server Conn} {key : Bytes} {c : Conn}
    (hlone : ∀ x ∈ server.subscribes, x.1 = key → x.2 = c) :
    (key, c) ∈ (server.emplace env key c).subscribes := by
  rw [Server.emplace]
  split
  · next hany =>
    obtain ⟨x, hx, hkey⟩ := List.any_eq_true.mp hany
    have hkey : x.1 = key := of_decide_eq_true hkey
    have hown : x = (key, c) := Prod.ext hkey (hlone x hx hkey)
    exact hown ▸ hx
  · exact (env.order.perm _ _ _).mem_iff.mpr List.mem_cons_self

theorem mem_sendAll (h : s.Inv) {key content : Bytes} {c : Conn} (hc : (key, c) ∈ s.subscribed)
    (hconnected : s.isConnected c = true) : (c, request content) ∈ s.sendAll key content := by
  have hentry := h.entry key c hc hconnected
  refine List.mem_map.mpr ⟨c, List.mem_filter.mpr ⟨?_, hconnected⟩, rfl⟩
  exact List.mem_map.mpr ⟨(key, c), List.mem_filter.mpr ⟨hentry, decide_eq_true rfl⟩, rfl⟩

theorem inv_clean (h : s.Inv) :
    ({ s with server := { s.server with
      subscribes := s.server.subscribes.filter fun x => s.isConnected x.2 } } : State Conn P).Inv := by
  refine h.table rfl (fun _ hx => hx) (fun key c hc hconnected => ?_) h.known
  exact List.mem_filter.mpr ⟨h.entry key c hc hconnected, hconnected⟩

theorem inv_subscribe (h : s.Inv) {c : Conn} {key : Bytes} (hstatus : s.status c ≠ .unknown)
    (hlone : s.isConnected c = true → ∀ x ∈ s.server.subscribes, x.1 = key → x.2 = c) :
    ({ s with server := s.server.emplace env key c, subscribed := s.subscribed ++ [(key, c)] } :
      State Conn P).Inv := by
  refine h.table rfl (fun x hx => List.mem_append_left _ hx) (fun key' g hg hconnected => ?_)
    fun key' g hg => ?_
  · rcases List.mem_append.mp hg with hold | hnew
    · exact mem_emplace_of_mem (h.entry key' g hold hconnected)
    · cases List.mem_singleton.mp hnew
      exact mem_emplace_self (hlone hconnected)
  · rcases List.mem_append.mp hg with hold | hnew
    · exact h.known key' g hold
    · cases List.mem_singleton.mp hnew
      exact hstatus

section Sessions

variable [DecidableEq Conn]

theorem inv_setStatus (h : s.Inv) {c : Conn} {status : Status} (hstatus : status ≠ .unknown)
    (hnew : status = .connected → s.status c = .unknown) : (s.setStatus c status).Inv := by
  refine h.table rfl (fun _ hx => hx) (fun key g hg hconnected => ?_) fun key g hg => ?_
  · by_cases hgc : g = c
    · subst hgc
      have hnow : status = .connected := by
        simpa [isConnected, setStatus] using hconnected
      exact absurd (hnew hnow) (h.known key g hg)
    · refine h.entry key g hg ?_
      simpa [isConnected, setStatus, hgc] using hconnected
  · by_cases hgc : g = c
    · subst hgc
      simpa [setStatus] using hstatus
    · simpa [setStatus, hgc] using h.known key g hg

end Sessions

section Calls

variable [DecidableEq P]

theorem inv_goto (h : s.Inv) {p : P} {pc : Pc Conn}
    (hsending : ∀ key content subscribers, pc = .sending key content subscribers →
      ∀ c ∈ subscribers, (key, c) ∈ s.subscribed)
    (hreturned : ∀ content owed sent, pc = .returned content owed sent →
      ∀ c ∈ owed, (c, request content) ∈ sent) : (s.goto p pc).Inv where
  entry := h.entry
  known := h.known
  sending q key content subscribers hq := by
    rcases Parties.cases_update (fun pc : Pc Conn => pc = .sending key content subscribers) hq with
      ⟨-, hself⟩ | ⟨-, hother⟩
    · exact hsending key content subscribers hself
    · exact h.sending q key content subscribers hother
  delivered q content owed sent hq := by
    rcases Parties.cases_update (fun pc : Pc Conn => pc = .returned content owed sent) hq with
      ⟨-, hself⟩ | ⟨-, hother⟩
    · exact hreturned content owed sent hself
    · exact h.delivered q content owed sent hother

end Calls

variable [DecidableEq Conn] [DecidableEq P]

theorem inv_step {l : Label Conn P} (h : s.Inv) (hlone : s.Lone l) (hstep : s.Step env l t) : t.Inv := by
  rw [Step] at hstep
  cases l with
  | accept c =>
      simp only [step] at hstep
      split at hstep
      · next hunknown =>
        cases hstep
        exact inv_setStatus h (by decide) fun _ => hunknown
      · cases hstep
  | subscribe c key =>
      simp only [step] at hstep
      split at hstep
      · next hstatus =>
        cases hstep
        exact inv_subscribe h (by rw [hstatus]; decide) hlone
      · next hstatus =>
        cases hstep
        exact inv_subscribe h (by rw [hstatus]; decide) hlone
      · cases hstep
  | disconnect c =>
      simp only [step] at hstep
      split at hstep
      · cases hstep
        exact inv_setStatus h (by decide) fun heq => by cases heq
      · cases hstep
  | expire c =>
      simp only [step] at hstep
      split at hstep
      · cases hstep
        exact inv_setStatus h (by decide) fun heq => by cases heq
      · cases hstep
        exact inv_setStatus h (by decide) fun heq => by cases heq
      · cases hstep
  | clean =>
      cases hstep
      exact inv_clean h
  | publish p key content =>
      simp only [step] at hstep
      split at hstep
      · split at hstep
        · next hempty =>
          cases hstep
          refine inv_goto h (fun _ _ _ heq => by cases heq) ?_
          rintro _ _ _ ⟨⟩ c hc
          -- with an empty table nobody who has subscribed is connected
          obtain ⟨hc, hconnected⟩ := List.mem_filter.mp hc
          have hentry := h.entry key c (mem_subscribers.mp hc) hconnected
          rw [hempty] at hentry
          cases hentry
        · cases hstep
          refine inv_goto h ?_ fun _ _ _ heq => by cases heq
          rintro _ _ _ ⟨⟩ c hc
          exact mem_subscribers.mp hc
      · cases hstep
  | send p =>
      simp only [step] at hstep
      split at hstep
      · next key content subscribers hpc =>
        cases hstep
        refine inv_goto h (fun _ _ _ heq => by cases heq) ?_
        rintro _ _ _ ⟨⟩ c hc
        obtain ⟨hc, hconnected⟩ := List.mem_filter.mp hc
        exact mem_sendAll h (h.sending p key content subscribers hpc c hc) hconnected
      · cases hstep

/-- In every run in which nobody subscribes behind another's entry, every publication reaches all who
have subscribed to its key and are still connected. -/
theorem delivered_of_lone {Conn P : Type} [DecidableEq Conn] [DecidableEq P] (env : Env)
    (s : State Conn P) (hreach : Reachable (Guarded Lone (Step env)) New s) : s.Delivered := by
  have hinv : s.Inv := by
    refine hreach.invariant (fun _ => inv_of_new) ?_
    rintro s l t h ⟨hlone, hstep⟩
    exact inv_step h hlone hstep
  exact hinv.delivered

section Examples

open Registry (plainEnv)

def newServer : State Bool Unit :=
  { server := { services := fun _ => none, subscribes := [] }, status := fun _ => .unknown,
    subscribed := [], pc := fun _ => .idle }

theorem new_newServer : New newServer := ⟨rfl, fun _ => rfl, rfl, fun _ => rfl⟩

/-- The second session subscribes to the key once the first has gone and its entry is cleaned out. -/
def oneAfterTheOther : List (Label Bool Unit) :=
  [.accept false, .subscribe false [107], .accept true, .expire false, .clean, .subscribe true [107],
    .publish () [107] [1], .send ()]

theorem delivered_of_lone_oneAfterTheOther :
    ∃ s : State Bool Unit, Reachable (Guarded Lone (Step plainEnv)) New s ∧
      s.pc () = .returned [1] [true] [(true, request [1])] ∧ s.Delivered := by
  obtain ⟨s, hrun, hvalue⟩ : ∃ s,
      oneAfterTheOther.foldlM (guarded Lone (step plainEnv)) newServer = some s ∧
        s.pc () = .returned [1] [true] [(true, request [1])] :=
    Option.map_eq_some_iff.mp (by decide)
  have hreach : Reachable (Guarded Lone (Step plainEnv)) New s :=
    .of_run guarded_step (.start new_newServer) hrun
  exact ⟨s, hreach, hvalue, delivered_of_lone plainEnv s hreach⟩

def sharedKey : List (Label Bool Unit) :=
  [.accept false, .subscribe false [107], .accept true, .subscribe true [107], .publish () [107] [1],
    .send ()]

theorem not_delivered_sharedKey :
    ∃ s : State Bool Unit, Reachable (Step plainEnv) New s ∧ ¬ s.Delivered := by
  obtain ⟨s, hrun, hvalue⟩ : ∃ s, sharedKey.foldlM (step plainEnv) newServer = some s ∧
      s.pc () = .returned [1] [false, true] [(false, request [1])] :=
    Option.map_eq_some_iff.mp (by decide)
  refine ⟨s, .of_run (fun _ _ _ hstep => hstep) (.start new_newServer) hrun, ?_⟩
  intro hdelivered
  have hmissed := hdelivered () _ _ _ hvalue true (by decide)
  revert hmissed
  decide

end Examples

end State

end AsyncRPC.Publish
