import AsyncRPC.Proof.Heartbeat
import AsyncRPC.Proof.Lifecycle
import AsyncRPC.ReceiveLoop

/-!
# How the receive loops end

Both loops take the same rounds while frames arrive. At a null request the pool's loop leaves, and the
client's goes round again: what it has closed gives it null requests for ever.
-/

namespace AsyncRPC.Endpoint

variable {k : Kind} {s : State} {frames : List Protocol}

theorem received_append (before : List Protocol) (frame : Protocol) :
    received (before ++ [frame]) = received before ++ [.recvRequest, .handled frame] := by
  simp [received]

/-- A round with a frame to come. -/
theorem Loop.round_frame (afterClose : Loop → Loop) {loop : Loop} {frame : Protocol}
    {rest : List Protocol} (hreturned : loop.returned = false) (harriving : loop.arriving = frame :: rest) :
    Loop.round k afterClose loop = some
      { endpoint := k.handleRecv loop.endpoint frame, arriving := rest,
        log := loop.log ++ [.recvRequest, .handled frame], returned := false } := by
  obtain ⟨endpoint, arriving, log, returned⟩ := loop
  cases hreturned
  cases harriving
  simp [Loop.round, Loop.note]

/-- A round with nothing to come, in a connection that can be closed. -/
theorem Loop.round_null (afterClose : Loop → Loop) {loop : Loop} {endpoint : State}
    (hreturned : loop.returned = false) (harriving : loop.arriving = [])
    (hclose : k.close loop.endpoint = some endpoint) :
    Loop.round k afterClose loop = some (afterClose
      { endpoint := endpoint, arriving := [], log := loop.log ++ [.recvRequest, .closed],
        returned := false }) := by
  obtain ⟨before, arriving, log, returned⟩ := loop
  cases hreturned
  cases harriving
  change k.close before = some endpoint at hclose
  simp [Loop.round, Loop.note, hclose]

/-- With a session there is nothing to stop `close`. -/
theorem exists_close (k : Kind) (hsession : s.session.isSome = true) :
    ∃ t, k.close s = some t ∧ t.session.isSome = true := by
  obtain ⟨x, hx⟩ := Option.isSome_iff_exists.mp hsession
  cases hclosed : s.isClosed with
  | true => exact ⟨s, close_isClosed k hclosed, hsession⟩
  | false =>
      obtain ⟨t, hclose, ht, -⟩ := close_open k hclosed hx
      exact ⟨t, hclose, by rw [ht]; rfl⟩

theorem Kind.round_frame {loop : Loop} {frame : Protocol} {rest : List Protocol}
    (hreturned : loop.returned = false) (harriving : loop.arriving = frame :: rest) :
    k.round loop = some
      { endpoint := k.handleRecv loop.endpoint frame, arriving := rest,
        log := loop.log ++ [.recvRequest, .handled frame], returned := false } := by
  cases k with
  | client => exact Loop.round_frame id hreturned harriving
  | pool => exact Loop.round_frame Loop.leave hreturned harriving

/-- While frames arrive, each is received and handled. -/
theorem receive_frames (k : Kind) (hopen : s.isConnected = true) (before rest : List Protocol) :
    ∃ endpoint, endpoint.session.isSome = true ∧
      receive k s (before ++ rest) before.length = some
        { endpoint := endpoint, arriving := rest, log := received before, returned := false } := by
  induction before using List.reverseRecOn generalizing rest with
  | nil =>
      obtain ⟨x, hx, hconnected⟩ := (Option.any_eq_true ..).mp hopen
      refine ⟨s, by rw [hx]; rfl, ?_⟩
      rw [List.length_nil, receive, Loop.enter, hx]
      simp [hconnected, received]
  | append_singleton before frame ih =>
      obtain ⟨endpoint, hsession, hrun⟩ := ih (frame :: rest)
      obtain ⟨-, hkept, -⟩ := handleRecv_spec k endpoint frame
      refine ⟨k.handleRecv endpoint frame, by rwa [hkept], ?_⟩
      rw [List.append_assoc, List.singleton_append, List.length_append, List.length_singleton,
        receive, hrun, Option.bind_some, Kind.round_frame rfl rfl, received_append]

/-- **The client's loop goes on.** After the frames it asks and closes again in every round. -/
theorem receive_client_spins (hopen : s.isConnected = true) (frames : List Protocol) (rounds : Nat) :
    ∃ endpoint, endpoint.session.isSome = true ∧
      receive .client s frames (frames.length + rounds) = some
        { endpoint := endpoint, arriving := [], returned := false,
          log := received frames ++ (List.replicate rounds [Action.recvRequest, .closed]).flatten } := by
  induction rounds with
  | zero =>
      obtain ⟨endpoint, hsession, hrun⟩ := receive_frames .client hopen frames []
      rw [List.append_nil] at hrun
      refine ⟨endpoint, hsession, ?_⟩
      rw [Nat.add_zero, hrun, List.replicate_zero, List.flatten_nil, List.append_nil]
  | succ rounds ih =>
      obtain ⟨endpoint, hsession, hrun⟩ := ih
      obtain ⟨closed, hclose, hclosed⟩ := exists_close .client hsession
      refine ⟨closed, hclosed, ?_⟩
      rw [← Nat.add_assoc, receive, hrun, Option.bind_some, Kind.round, RPCClient.round,
        Loop.round_null id rfl rfl hclose, List.replicate_succ', List.flatten_append,
        List.flatten_singleton, List.append_assoc]
      rfl

/-- A loop that has returned stays as it is. -/
theorem Kind.round_returned {loop : Loop} (h : loop.returned = true) : k.round loop = some loop := by
  cases k with
  | client => rw [Kind.round, RPCClient.round, Loop.round, if_pos h]
  | pool => rw [Kind.round, RPCConnectionPool.round, Loop.round, if_pos h]

/-- Without an open session neither loop is entered. -/
theorem receive_of_not_connected (k : Kind) (hclosed : s.isConnected = false) (frames : List Protocol)
    {rounds : Nat} {loop : Loop} (h : receive k s frames rounds = some loop) :
    loop.returned = true ∧ loop.log = [.returned] := by
  induction rounds generalizing loop with
  | zero =>
      rw [receive, Loop.enter] at h
      cases hsession : s.session with
      | none =>
          rw [hsession] at h
          cases h
      | some x =>
          have hx : x.connected = false := (isConnected_of_session hsession).symm.trans hclosed
          rw [hsession] at h
          simp only [hx] at h
          cases h
          exact ⟨rfl, rfl⟩
  | succ rounds ih =>
      obtain ⟨before, hbefore, hround⟩ := Option.bind_eq_some_iff.mp h
      obtain ⟨hreturned, hlog⟩ := ih hbefore
      rw [Kind.round_returned hreturned] at hround
      cases hround
      exact ⟨hreturned, hlog⟩

theorem not_returnsOnNull_of_not_connected (k : Kind) (hclosed : s.isConnected = false)
    (frames : List Protocol) : ¬ ReturnsOnNull k s frames := by
  rintro ⟨rounds, loop, hrun, -, hlog⟩
  obtain ⟨-, hshort⟩ := receive_of_not_connected k hclosed frames hrun
  have hlength := congrArg List.length (hshort.symm.trans hlog)
  rw [List.length_append] at hlength
  simp at hlength

theorem receive_returned {rounds : Nat} {loop : Loop} (h : receive k s frames rounds = some loop)
    (hreturned : loop.returned = true) (more : Nat) :
    receive k s frames (more + rounds) = some loop := by
  induction more with
  | zero => rwa [Nat.zero_add]
  | succ more ih => rw [Nat.succ_add, receive, ih, Option.bind_some, Kind.round_returned hreturned]

theorem not_returnsOnNull_client (s : State) (frames : List Protocol) :
    ¬ ReturnsOnNull .client s frames := by
  cases hopen : s.isConnected with
  | false => exact not_returnsOnNull_of_not_connected .client hopen frames
  | true =>
      rintro ⟨rounds, loop, hrun, hreturned, -⟩
      obtain ⟨endpoint, -, hspins⟩ := receive_client_spins hopen frames rounds
      rw [receive_returned hrun hreturned frames.length] at hspins
      cases hspins
      cases hreturned

theorem returnsOnNull_pool_iff (s : State) (frames : List Protocol) :
    ReturnsOnNull .pool s frames ↔ s.isConnected = true := by
  constructor
  · intro h
    by_contra hclosed
    exact not_returnsOnNull_of_not_connected .pool (Bool.eq_false_iff.mpr hclosed) frames h
  · intro hopen
    obtain ⟨endpoint, hsession, hrun⟩ := receive_frames .pool hopen frames []
    rw [List.append_nil] at hrun
    obtain ⟨closed, hclose, -⟩ := exists_close .pool hsession
    have hlast : receive .pool s frames (frames.length + 1) = some
        { endpoint := closed, arriving := [], returned := true,
          log := received frames ++ [.recvRequest, .closed] ++ [.returned] } := by
      rw [receive, hrun, Option.bind_some, Kind.round, RPCConnectionPool.round,
        Loop.round_null Loop.leave rfl rfl hclose]
      rfl
    refine ⟨frames.length + 1, _, hlast, rfl, ?_⟩
    rw [List.append_assoc]
    rfl

/-- Whatever its state and whatever arrives, the client's loop does not return at a null request, and
the pool's does just if it was entered. -/
theorem returnsOnNull_iff (s : State) (frames : List Protocol) :
    ¬ ReturnsOnNull .client s frames ∧ (ReturnsOnNull .pool s frames ↔ s.isConnected = true) :=
  ⟨not_returnsOnNull_client s frames, returnsOnNull_pool_iff s frames⟩

/-- An endpoint that has just connected. -/
def justConnected : State :=
  RPCClient.connect
    { session := none, isClosed := false, isHeartclose := false, autoHeartbeat := false,
      heartbeatTimer := false, channelClosed := false, sent := [] } (.established 0)

/-- The peer goes away before it has sent anything: the pool returns, the client does not. -/
theorem not_returnsOnNull_justConnected :
    justConnected.isConnected = true ∧ ReturnsOnNull .pool justConnected [] ∧
      ¬ ReturnsOnNull .client justConnected [] :=
  ⟨rfl, (returnsOnNull_pool_iff justConnected []).mpr rfl, not_returnsOnNull_client justConnected []⟩

end AsyncRPC.Endpoint
