import AsyncRPC.Endpoint

/-!
# Heartbeat supervision

The timer's callback of a client closes the connection if the flag is set, and sets it; the callback
of a pool only looks at it. So a client closes at the second of two ticks in a row, a pool never.
-/

namespace AsyncRPC.Endpoint

variable {s t : State}

@[simp] theorem isHeartclose_push (s : State) (message : Protocol) :
    (s.push message).isHeartclose = s.isHeartclose := by
  rw [State.push]
  split
  · rfl
  · rfl

@[simp] theorem session_push (s : State) (message : Protocol) :
    (s.push message).session = s.session := by
  rw [State.push]
  split
  · rfl
  · rfl

@[simp] theorem heartbeatTimer_push (s : State) (message : Protocol) :
    (s.push message).heartbeatTimer = s.heartbeatTimer := by
  rw [State.push]
  split
  · rfl
  · rfl

@[simp] theorem isClosed_push (s : State) (message : Protocol) :
    (s.push message).isClosed = s.isClosed := by
  rw [State.push]
  split
  · rfl
  · rfl

theorem isConnected_of_session {x : Session} (h : s.session = some x) :
    s.isConnected = x.connected := by
  rw [State.isConnected, h]
  rfl

theorem silent_append {events : List Event} {event : Event} :
    Silent (events ++ [event]) ↔ event = .tick := by
  simp [Silent]

theorem watch_append {k : Kind} {events : List Event} {event : Event} :
    watch k s (events ++ [event]) = (watch k s events).bind fun r => perform k r event := by
  rw [watch, List.foldlM_append]
  cases hrun : List.foldlM (perform k) s events with
  | none => simp [watch, hrun]
  | some r => simp [watch, hrun]

theorem handleRecv_spec (k : Kind) (s : State) (message : Protocol) :
    (k.handleRecv s message).isHeartclose = false ∧ (k.handleRecv s message).session = s.session ∧
      (k.handleRecv s message).heartbeatTimer = s.heartbeatTimer ∧
      (k.handleRecv s message).isClosed = s.isClosed := by
  cases k with
  | client =>
      rw [Kind.handleRecv, RPCClient.handleRecv]
      cases message.msgType <;> simp
  | pool =>
      rw [Kind.handleRecv, RPCConnectionPool.handleRecv]
      cases message.msgType <;> simp

theorem close_open (k : Kind) (hclosed : s.isClosed = false) {x : Session}
    (hsession : s.session = some x) :
    ∃ t, k.close s = some t ∧ t.session = some { x with connected := false } ∧ t.isClosed = true ∧
      t.heartbeatTimer = false := by
  cases k with
  | client =>
      simp only [Kind.close, RPCClient.close, hclosed, hsession]
      exact ⟨_, rfl, rfl, rfl, rfl⟩
  | pool =>
      simp only [Kind.close, RPCConnectionPool.close, hclosed, hsession]
      exact ⟨_, rfl, rfl, rfl, rfl⟩

/-- A tick closes an open connection if the flag is set. -/
theorem heartbeat_set (k : Kind) (hclosed : s.isClosed = false) {x : Session}
    (hsession : s.session = some x) (hflag : s.isHeartclose = true) :
    ∃ t, k.heartbeat s = some t ∧ t.session = some { x with connected := false } ∧ t.isClosed = true ∧
      t.heartbeatTimer = false := by
  obtain ⟨t, hclose, hsessionT, hclosedT, htimerT⟩ := close_open k hclosed hsession
  cases k with
  | client =>
      have hclose : RPCClient.close s = some t := hclose
      simp only [Kind.heartbeat, RPCClient.heartbeat, hflag, if_true, hclose]
      exact ⟨_, rfl, by simpa using hsessionT, by simpa using hclosedT, by simpa using htimerT⟩
  | pool =>
      have hclose : RPCConnectionPool.close s = some t := hclose
      simp only [Kind.heartbeat, RPCConnectionPool.heartbeat, hflag, if_true, hclose]
      exact ⟨_, rfl, by simpa using hsessionT, by simpa using hclosedT, by simpa using htimerT⟩

/-- A tick leaves the connection open otherwise; only a client's sets the flag. -/
theorem heartbeat_clear (k : Kind) (hflag : s.isHeartclose = false) :
    ∃ t, k.heartbeat s = some t ∧ t.session = s.session ∧ t.isClosed = s.isClosed ∧
      t.heartbeatTimer = s.heartbeatTimer ∧ (t.isHeartclose = true ↔ k = .client) := by
  cases k with
  | client =>
      simp only [Kind.heartbeat, RPCClient.heartbeat, hflag]
      exact ⟨_, rfl, by simp, by simp, by simp, by simp⟩
  | pool =>
      simp only [Kind.heartbeat, RPCConnectionPool.heartbeat, hflag]
      exact ⟨_, rfl, by simp, by simp, by simp, by simp [hflag]⟩

/-- The object after some events: it ticks as long as it is open, and the flag of a client says that
nothing was received since the last tick. -/
structure Watched (k : Kind) (events : List Event) (r : State) : Prop where
  session : ∃ x, r.session = some x
  isClosed : r.isClosed = !r.isConnected
  heartbeatTimer : r.heartbeatTimer = r.isConnected
  isHeartclose : r.isConnected = true → (r.isHeartclose = true ↔ k = .client ∧ Silent events)

theorem watched_connect (k : Kind) (hauto : s.autoHeartbeat = true) (id : Nat) :
    Watched k [] (k.connect s (.established id)) := by
  cases k with
  | client => exact ⟨⟨_, rfl⟩, rfl, by simp [Kind.connect, RPCClient.connect, hauto, State.isConnected],
      fun _ => by simp [Kind.connect, RPCClient.connect, Silent]⟩
  | pool => exact ⟨⟨_, rfl⟩, rfl,
      by simp [Kind.connect, RPCConnectionPool.connect, hauto, State.isConnected],
      fun _ => by simp [Kind.connect, RPCConnectionPool.connect, Silent]⟩

theorem Watched.frame {k : Kind} {events : List Event} (h : Watched k events s) (message : Protocol) :
    ∃ t, perform k s (.frame message) = some t ∧ Watched k (events ++ [.frame message]) t ∧
      t.isConnected = s.isConnected := by
  have hloud : ¬ Silent (events ++ [.frame message]) := by simp [silent_append]
  cases hconnected : s.isConnected with
  | false =>
      refine ⟨s, by simp [perform, hconnected], ?_, hconnected⟩
      refine ⟨h.session, h.isClosed, h.heartbeatTimer, fun hopen => ?_⟩
      rw [hconnected] at hopen
      cases hopen
  | true =>
      obtain ⟨hflag, hsession, htimer, hclosed⟩ := handleRecv_spec k s message
      have hsame : (k.handleRecv s message).isConnected = s.isConnected := by
        rw [State.isConnected, hsession, State.isConnected]
      refine ⟨k.handleRecv s message, by simp [perform, hconnected], ?_, hsame.trans hconnected⟩
      refine ⟨hsession ▸ h.session, ?_, ?_, fun _ => ?_⟩
      · rw [hclosed, hsame]
        exact h.isClosed
      · rw [htimer, hsame]
        exact h.heartbeatTimer
      · rw [hflag]
        exact iff_of_false Bool.false_ne_true fun hboth => hloud hboth.2

/-- Only the tick of a client that has heard nothing since the last one closes. -/
theorem Watched.tick {k : Kind} {events : List Event} (h : Watched k events s) :
    ∃ t, perform k s .tick = some t ∧ Watched k (events ++ [.tick]) t ∧
      (s.isConnected = true → (t.isConnected = false ↔ k = .client ∧ Silent events)) := by
  have hsilent : Silent (events ++ [.tick]) := silent_append.mpr rfl
  cases hconnected : s.isConnected with
  | false =>
      have htimer : s.heartbeatTimer = false := h.heartbeatTimer.trans hconnected
      refine ⟨s, by simp [perform, htimer], ?_, fun hopen => absurd hopen Bool.false_ne_true⟩
      refine ⟨h.session, h.isClosed, h.heartbeatTimer, fun hopen => ?_⟩
      rw [hconnected] at hopen
      cases hopen
  | true =>
      obtain ⟨x, hsession⟩ := h.session
      have htimer : s.heartbeatTimer = true := h.heartbeatTimer.trans hconnected
      have hopen : s.isClosed = false := by
        rw [h.isClosed, hconnected]
        rfl
      have hrun : perform k s .tick = k.heartbeat s := by simp [perform, htimer]
      rw [hrun]
      cases hflag : s.isHeartclose with
      | true =>
          obtain ⟨t, hbeat, hsessionT, hclosedT, htimerT⟩ := heartbeat_set k hopen hsession hflag
          have hconnectedT : t.isConnected = false := isConnected_of_session hsessionT
          refine ⟨t, hbeat, ⟨⟨_, hsessionT⟩, ?_, ?_, fun hopenT => ?_⟩, fun _ => ?_⟩
          · rw [hclosedT, hconnectedT]
            rfl
          · rw [htimerT, hconnectedT]
          · rw [hconnectedT] at hopenT
            cases hopenT
          · exact iff_of_true hconnectedT ((h.isHeartclose hconnected).mp hflag)
      | false =>
          obtain ⟨t, hbeat, hsessionT, hclosedT, htimerT, hflagT⟩ := heartbeat_clear k hflag
          have hsame : t.isConnected = s.isConnected := by
            rw [State.isConnected, hsessionT, State.isConnected]
          refine ⟨t, hbeat, ⟨hsessionT ▸ h.session, ?_, ?_, fun _ => ?_⟩, fun _ => ?_⟩
          · rw [hclosedT, hsame]
            exact h.isClosed
          · rw [htimerT, hsame]
            exact h.heartbeatTimer
          · rw [hflagT]
            exact (and_iff_left hsilent).symm
          · rw [hsame, hconnected]
            refine iff_of_false (Bool.false_ne_true ∘ Eq.symm) fun hboth => ?_
            rw [(h.isHeartclose hconnected).mpr hboth] at hflag
            cases hflag

theorem watch_spec {k : Kind} (hstart : Watched k [] s) (events : List Event) :
    ∃ t, watch k s events = some t ∧ Watched k events t := by
  induction events using List.reverseRecOn with
  | nil => exact ⟨s, rfl, hstart⟩
  | append_singleton events event ih =>
      obtain ⟨r, hrun, hr⟩ := ih
      rw [watch_append, hrun, Option.bind_some]
      cases event with
      | tick =>
          obtain ⟨t, hstep, ht, -⟩ := hr.tick
          exact ⟨t, hstep, ht⟩
      | frame message =>
          obtain ⟨t, hstep, ht, -⟩ := hr.frame message
          exact ⟨t, hstep, ht⟩

/-- The client does what is asked of both, whatever comes. -/
theorem supervised_client (hstart : Watched .client [] s) (events : List Event) :
    Supervised .client s events := by
  intro before _
  obtain ⟨r, hrun, hr⟩ := watch_spec hstart before
  obtain ⟨t, hstep, -, hiff⟩ := hr.tick
  exact ⟨r, t, hrun, hstep, fun hopen => by simpa using hiff hopen⟩

/-- The connection of a pool stays open, and that of a client without two ticks in a row. -/
theorem isConnected_watch {k : Kind} (hstart : Watched k [] s) (hopen : s.isConnected = true)
    {events : List Event}
    (hapart : k = .client → ∀ before, ¬ before ++ [.tick, .tick] <+: events) {t : State}
    (hrun : watch k s events = some t) : t.isConnected = true := by
  induction events using List.reverseRecOn generalizing t with
  | nil =>
      cases hrun
      exact hopen
  | append_singleton events event ih =>
      rw [watch_append] at hrun
      obtain ⟨r, hrun, hstep⟩ := Option.bind_eq_some_iff.mp hrun
      have hrOpen : r.isConnected = true :=
        ih (fun hk before h => hapart hk before (h.trans (List.prefix_append _ _))) hrun
      obtain ⟨r', hrun', hr⟩ := watch_spec hstart events
      rw [hrun] at hrun'
      cases hrun'
      cases event with
      | frame message =>
          obtain ⟨t', hstep', -, hsame⟩ := hr.frame message
          rw [hstep] at hstep'
          cases hstep'
          exact hsame.trans hrOpen
      | tick =>
          obtain ⟨t', hstep', -, hiff⟩ := hr.tick
          rw [hstep] at hstep'
          cases hstep'
          by_contra hclosed
          obtain ⟨hk, hsilent⟩ := (hiff hrOpen).mp (Bool.eq_false_of_not_eq_true hclosed)
          obtain ⟨before, hevents⟩ := List.getLast?_eq_some_iff.mp hsilent
          refine hapart hk before ?_
          rw [hevents, List.append_assoc]
          exact List.prefix_rfl

/-- **When both classes supervise their connections.** They do, and close at the same ticks, just if
something is received between any two ticks. -/
theorem bothSupervised_iff (s : Kind → State) (hauto : ∀ k, (s k).autoHeartbeat = true)
    (id : Kind → Nat) (events : List Event) :
    BothSupervised (fun k => k.connect (s k) (.established (id k))) events ↔
      ∀ before, ¬ before ++ [.tick, .tick] <+: events := by
  have hstart : ∀ k, Watched k [] (k.connect (s k) (.established (id k))) :=
    fun k => watched_connect k (hauto k) (id k)
  have hopen : ∀ k : Kind, (k.connect (s k) (.established (id k))).isConnected = true := by
    intro k
    cases k with
    | client => rfl
    | pool => rfl
  constructor
  · rintro ⟨heach, -⟩ before hbegins
    have hticks : before ++ [.tick] ++ [.tick] <+: events := by
      rw [List.append_assoc]
      exact hbegins
    -- the pool is open before the second tick and after it
    obtain ⟨r, r', hrun, hstep, hiff⟩ := heach .pool (before ++ [.tick]) hticks
    have hrun' : watch .pool (Kind.pool.connect (s .pool) (.established (id .pool)))
        (before ++ [.tick] ++ [.tick]) = some r' := by
      rw [watch_append, hrun]
      exact hstep
    have hr : r.isConnected = true :=
      isConnected_watch (hstart .pool) (hopen .pool) (fun hk => Kind.noConfusion hk) hrun
    have hr' : r'.isConnected = true :=
      isConnected_watch (hstart .pool) (hopen .pool) (fun hk => Kind.noConfusion hk) hrun'
    rw [(hiff hr).mpr (silent_append.mpr rfl)] at hr'
    cases hr'
  · intro hapart
    refine ⟨fun k => ?_, fun before hbegins => ?_⟩
    · cases k with
      | client => exact supervised_client (hstart .client) events
      | pool =>
          intro before hbegins
          obtain ⟨r, hrun, hr⟩ := watch_spec (hstart .pool) before
          obtain ⟨t, hstep, -, hiff⟩ := hr.tick
          refine ⟨r, t, hrun, hstep, fun hrOpen => ?_⟩
          rw [hiff hrOpen]
          refine iff_of_false (fun h => Kind.noConfusion h.1) fun hsilent => ?_
          obtain ⟨earlier, hbefore⟩ := List.getLast?_eq_some_iff.mp hsilent
          refine hapart earlier ?_
          rw [hbefore, List.append_assoc] at hbegins
          exact hbegins
    · have hboth : ∀ k, ∃ t, watch k (k.connect (s k) (.established (id k))) before = some t ∧
          t.isConnected = true := by
        intro k
        obtain ⟨t, hrun, -⟩ := watch_spec (hstart k) before
        exact ⟨t, hrun, isConnected_watch (hstart k) (hopen k)
          (fun _ earlier h => hapart earlier (h.trans hbegins)) hrun⟩
      obtain ⟨t, hrun, ht⟩ := hboth .client
      obtain ⟨t', hrun', ht'⟩ := hboth .pool
      rw [hrun, hrun', Option.map_some, Option.map_some, ht, ht']

/-- An object that has just been made, with flags that happen to be set. -/
def fresh : State :=
  { session := none, isClosed := true, isHeartclose := true, autoHeartbeat := true,
    heartbeatTimer := false, channelClosed := false, sent := [] }

/-- The other side answers the first heartbeat. -/
theorem bothSupervised_iff_answered :
    BothSupervised (fun k => k.connect fresh (.established 0))
      [.tick, .frame Protocol.heartBeat, .tick] := by
  refine (bothSupervised_iff (fun _ => fresh) (fun _ => rfl) (fun _ => 0) _).mpr ?_
  intro before hbegins
  have hlength := hbegins.length_le
  cases before with
  | nil => simp at hbegins
  | cons first before =>
      obtain ⟨-, hrest⟩ := List.cons_prefix_cons.mp hbegins
      cases before with
      | nil => simp at hrest
      | cons second before =>
          simp only [List.length_append, List.length_cons, List.length_nil] at hlength
          omega

/-- Two ticks with nothing between them: the registry is silent, and the pool stays connected. -/
theorem not_bothSupervised_silent :
    ¬ BothSupervised (fun k => k.connect fresh (.established 0)) [.tick, .tick] := by
  intro h
  have halike := h.alike [.tick, .tick] List.prefix_rfl
  revert halike
  decide

end AsyncRPC.Endpoint
