import AsyncRPC.Endpoint

/-!
# When close goes through

`close` trusts `is_closed_`, which is first set by the first successful `connect`, and expects a
session whenever it is not set. A client gives up its session when an attempt to connect is refused,
and leaves the flag.
-/

namespace AsyncRPC.Endpoint

variable {k : Kind} {s r t : State} {ops : List Op}

theorem run_append {op : Op} : run k s (ops ++ [op]) = (run k s ops).bind fun r => act k r op := by
  rw [run, List.foldlM_append]
  cases hrun : List.foldlM (act k) s ops with
  | none => simp [run, hrun]
  | some r => simp [run, hrun]

theorem standing_append {op : Op} : standing (ops ++ [op]) = op.standing (standing ops) := by
  rw [standing, List.foldl_append]
  rfl

theorem close_isClosed (k : Kind) (h : s.isClosed = true) : k.close s = some s := by
  cases k with
  | client => exact if_pos h
  | pool => exact if_pos h

theorem close_null (k : Kind) (hclosed : s.isClosed = false) (hsession : s.session = none) :
    k.close s = none := by
  cases k with
  | client => simp [Kind.close, RPCClient.close, hclosed, hsession]
  | pool => simp [Kind.close, RPCConnectionPool.close, hclosed, hsession]

/-- A `close` that finds a connection. -/
theorem close_session (k : Kind) (hclosed : s.isClosed = false) {x : Session}
    (hsession : s.session = some x) :
    ∃ t, k.close s = some t ∧ t.session = some { x with connected := false } ∧ t.isClosed = true := by
  cases k with
  | client =>
      simp only [Kind.close, RPCClient.close, hclosed, hsession]
      exact ⟨_, rfl, rfl, rfl⟩
  | pool =>
      simp only [Kind.close, RPCConnectionPool.close, hclosed, hsession]
      exact ⟨_, rfl, rfl, rfl⟩

/-- What the operations so far have left: the session of the connection that stands, unless a client
was refused another, and a flag that says whether one stands. -/
structure Left (k : Kind) (closed : Bool) (ops : List Op) (r : State) : Prop where
  isClosed : r.isClosed = ((standing ops).isNone && (closed || decide (.close ∈ ops)))
  session : ∀ x, standing ops = some x →
    r.session = if k = .client ∧ x.refused = true then none else some ⟨x.id, true⟩
  never : standing ops = none → .close ∉ ops → r.session = none

theorem left_new (h : s.New) (k : Kind) : Left k s.isClosed [] s where
  isClosed := by simp [standing]
  session := fun x hx => by cases hx
  never := fun _ _ => h.session

theorem Left.connect {closed : Bool} (h : Left k closed ops r) (attempt : Attempt) :
    Left k closed (ops ++ [.connect attempt]) (k.connect r attempt) := by
  have hmem : (Op.close ∈ ops ++ [.connect attempt]) ↔ Op.close ∈ ops := by simp
  cases attempt with
  | noSocket =>
      have hsame : k.connect r .noSocket = r := by cases k <;> rfl
      have hstanding : standing (ops ++ [.connect .noSocket]) = standing ops := standing_append
      rw [hsame]
      refine ⟨?_, ?_, ?_⟩
      · simp only [hstanding, hmem]
        exact h.isClosed
      · rw [hstanding]
        exact h.session
      · rw [hstanding, hmem]
        exact h.never
  | refused =>
      have hstanding : standing (ops ++ [.connect .refused])
          = (standing ops).map fun x => { x with refused := true } := standing_append
      have hclosed : (k.connect r .refused).isClosed = r.isClosed := by cases k <;> rfl
      refine ⟨?_, ?_, ?_⟩
      · rw [hclosed, h.isClosed, hstanding]
        simp only [hmem, Option.isNone_map]
      · intro x hx
        rw [hstanding] at hx
        obtain ⟨y, hy, rfl⟩ := Option.map_eq_some_iff.mp hx
        cases k with
        | client => rfl
        | pool => exact (h.session y hy).trans (by simp)
      · rw [hstanding, Option.map_eq_none_iff, hmem]
        intro hnone hclose
        cases k with
        | client => rfl
        | pool => exact h.never hnone hclose
  | established id =>
      have hstanding : standing (ops ++ [.connect (.established id)]) = some ⟨id, false⟩ :=
        standing_append
      have hclosed : (k.connect r (.established id)).isClosed = false := by cases k <;> rfl
      have hsession : (k.connect r (.established id)).session = some ⟨id, true⟩ := by cases k <;> rfl
      refine ⟨?_, ?_, ?_⟩
      · rw [hclosed, hstanding]
        rfl
      · intro x hx
        rw [hstanding] at hx
        cases hx
        rw [hsession]
        simp
      · intro hnone
        rw [hstanding] at hnone
        cases hnone

theorem left_closed {closed : Bool} (hclosed : r.isClosed = true) :
    Left k closed (ops ++ [.close]) r := by
  have hstanding : standing (ops ++ [.close]) = none := standing_append
  refine ⟨?_, ?_, ?_⟩
  · rw [hclosed, hstanding]
    simp
  · intro x hx
    rw [hstanding] at hx
    cases hx
  · intro _ hclose
    exact absurd (List.mem_append_right ops (List.mem_singleton_self _)) hclose

theorem Left.close_spec {closed : Bool} (h : Left k closed ops r) (hrun : k.close r = some t) :
    t.isClosed = true ∧ (∀ x, standing ops = some x → t.session = some ⟨x.id, false⟩) ∧
      (standing ops = none → t = r) := by
  cases hclosed : r.isClosed with
  | true =>
      rw [close_isClosed k hclosed] at hrun
      cases hrun
      refine ⟨hclosed, fun x hx => ?_, fun _ => rfl⟩
      rw [h.isClosed, hx] at hclosed
      cases hclosed
  | false =>
      cases hsession : r.session with
      | none =>
          rw [close_null k hclosed hsession] at hrun
          cases hrun
      | some y =>
          obtain ⟨_, hclose, hclosedT, hset⟩ := close_session k hclosed hsession
          cases hrun.symm.trans hclose
          refine ⟨hset, fun x hx => ?_, fun hnone => ?_⟩
          · have hleft := h.session x hx
            rw [hsession] at hleft
            split at hleft
            · cases hleft
            · cases hleft
              exact hclosedT
          · -- nothing stands, the flag is not set: there never was a connection
            have hflag := h.isClosed
            rw [hclosed, hnone] at hflag
            obtain ⟨-, hclose'⟩ := Bool.or_eq_false_iff.mp hflag.symm
            rw [h.never hnone (of_decide_eq_false hclose')] at hsession
            cases hsession

theorem Left.close_iff {closed : Bool} (h : Left k closed ops r) :
    (∃ t, k.close r = some t) ↔
      (closed = true ∨ .close ∈ ops ∨ (standing ops).isSome = true) ∧
        (k = .client → ∀ x, standing ops = some x → x.refused = false) := by
  cases hstanding : standing ops with
  | none =>
      have hflag : r.isClosed = (closed || decide (.close ∈ ops)) := by
        rw [h.isClosed, hstanding]
        rfl
      cases hclosed : r.isClosed with
      | true =>
          rw [hclosed] at hflag
          refine iff_of_true ⟨r, close_isClosed k hclosed⟩ ⟨?_, ?_⟩
          · rcases Bool.or_eq_true_iff.mp hflag.symm with hset | hclose
            · exact Or.inl hset
            · exact Or.inr (Or.inl (of_decide_eq_true hclose))
          · intro _ x hx
            cases hx
      | false =>
          rw [hclosed] at hflag
          obtain ⟨hunset, hnone⟩ := Bool.or_eq_false_iff.mp hflag.symm
          have hclose : .close ∉ ops := of_decide_eq_false hnone
          refine iff_of_false ?_ ?_
          · rintro ⟨t, hrun⟩
            rw [close_null k hclosed (h.never hstanding hclose)] at hrun
            cases hrun
          · rintro ⟨hset | hmem | hsome, -⟩
            · rw [hunset] at hset
              cases hset
            · exact hclose hmem
            · cases hsome
  | some x =>
      have hopen : r.isClosed = false := by
        rw [h.isClosed, hstanding]
        rfl
      have hsession := h.session x hstanding
      by_cases hdropped : k = .client ∧ x.refused = true
      · rw [if_pos hdropped] at hsession
        refine iff_of_false ?_ ?_
        · rintro ⟨t, hrun⟩
          rw [close_null k hopen hsession] at hrun
          cases hrun
        · rintro ⟨-, hkept⟩
          have hfalse := hkept hdropped.1 x rfl
          rw [hdropped.2] at hfalse
          cases hfalse
      · rw [if_neg hdropped] at hsession
        obtain ⟨t, hrun, -⟩ := close_session k hopen hsession
        refine iff_of_true ⟨t, hrun⟩ ⟨Or.inr (Or.inr rfl), ?_⟩
        rintro hclient _ ⟨⟩
        exact Bool.eq_false_of_not_eq_true fun hrefused => hdropped ⟨hclient, hrefused⟩

/-- What a run that gets through has left. -/
theorem left_of_run (hnew : s.New) (hrun : run k s ops = some r) : Left k s.isClosed ops r := by
  induction ops using List.reverseRecOn generalizing r with
  | nil =>
      cases hrun
      exact left_new hnew k
  | append_singleton ops op ih =>
      rw [run_append] at hrun
      obtain ⟨r₁, hrun₁, hstep⟩ := Option.bind_eq_some_iff.mp hrun
      have h₁ := ih hrun₁
      cases op with
      | connect attempt =>
          cases hstep
          exact h₁.connect attempt
      | close => exact left_closed (h₁.close_spec hstep).1

/-- A run gets through if every `close` in it is prepared. -/
theorem run_of_prepared (hnew : s.New) (k : Kind) (ops : List Op)
    (hprepared : ∀ before, before ++ [.close] <+: ops →
      (s.isClosed = true ∨ .close ∈ before ∨ (standing before).isSome = true) ∧
        (k = .client → ∀ x, standing before = some x → x.refused = false)) :
    ∃ r, run k s ops = some r := by
  induction ops using List.reverseRecOn with
  | nil => exact ⟨s, rfl⟩
  | append_singleton ops op ih =>
      obtain ⟨r, hrun⟩ := ih fun before h => hprepared before (h.trans (List.prefix_append _ _))
      rw [run_append, hrun, Option.bind_some]
      cases op with
      | connect attempt => exact ⟨_, rfl⟩
      | close => exact (left_of_run hnew hrun).close_iff.mpr (hprepared ops List.prefix_rfl)

/-- **When `close` is safe.** In the life of an object every `close` goes through, closes the
connection that stands and else changes nothing, just if the object is prepared for each. -/
theorem closesWell_iff_prepared (hnew : s.New) (k : Kind) (ops : List Op) :
    ClosesWell k s ops ↔ Prepared k s.isClosed ops := by
  constructor
  · intro h before hbegins
    obtain ⟨r, t, hrun, hclose, -⟩ := h before hbegins
    exact (left_of_run hnew hrun).close_iff.mp ⟨t, hclose⟩
  · intro h before hbegins
    have hbefore : before <+: ops ++ [.close] := (List.prefix_append _ _).trans hbegins
    obtain ⟨r, hrun⟩ := run_of_prepared hnew k before fun earlier he => h earlier (he.trans hbefore)
    have hr := left_of_run hnew hrun
    obtain ⟨t, hclose⟩ := hr.close_iff.mpr (h before hbegins)
    obtain ⟨-, hstands, hidle⟩ := hr.close_spec hclose
    exact ⟨r, t, hrun, hclose, hstands, fun hnone _ => hidle hnone⟩

/-- An object whose constructor has found `is_closed_` clear. -/
def unset : State :=
  { session := none, isClosed := false, isHeartclose := false, autoHeartbeat := true,
    heartbeatTimer := false, channelClosed := false, sent := [] }

/-- Connected, refused once, connected again and destroyed. -/
theorem closesWell_iff_prepared_again :
    ClosesWell .client unset
      [.connect (.established 0), .connect .refused, .connect (.established 1)] := by
  refine (closesWell_iff_prepared ⟨rfl, rfl, rfl, rfl⟩ .client _).mpr fun before hbegins => ?_
  have hall : before = [.connect (.established 0), .connect .refused, .connect (.established 1)] := by
    rcases before with _ | ⟨a, _ | ⟨b, _ | ⟨c, rest⟩⟩⟩
    · simp at hbegins
    · simp at hbegins
    · simp at hbegins
    · obtain ⟨rfl, rfl, rfl, hrest⟩ : a = .connect (.established 0) ∧ b = .connect .refused ∧
          c = .connect (.established 1) ∧ rest ++ [.close] <+: [.close] := by simpa using hbegins
      have hlength := hrest.length_le
      have hnil : rest = [] := by
        rw [← List.length_eq_zero_iff]
        simpa using hlength
      rw [hnil]
  subst hall
  exact ⟨Or.inr (Or.inr rfl), fun _ x hx => by cases hx; rfl⟩

/-- A client that never got a connection is destroyed. -/
theorem not_closesWell_never_connected : ¬ ClosesWell .client unset [.connect .refused] := by
  intro h
  obtain ⟨r, t, hrun, hclose, -⟩ := h [.connect .refused] List.prefix_rfl
  cases hrun
  cases hclose

end AsyncRPC.Endpoint
