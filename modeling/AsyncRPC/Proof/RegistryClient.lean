import AsyncRPC.Lib.Outcome
import AsyncRPC.Proof.ServiceRegistry

/-!
# The frames of one connection

A null pointer can be followed in two places: the address of the peer, cast in `handleProvider`, and
`providerAddr` in `handleServiceRegister`. The first never changes, the second is set by the first
frame that announces a provider and not taken back.
-/

namespace AsyncRPC.ServiceRegistry

open AsyncRPC.ByteArray (Spare)

variable {env : Env}

theorem uncaught_ne_nullPointer {α : Type} (x : Except Fault α) :
    uncaught x ≠ .error .nullPointer := by
  intro h
  obtain ⟨fault, hfault⟩ := Outcome.mapError_eq_error h
  cases hfault

theorem uncaught_bind_ne_nullPointer {α β : Type} (x : Except Fault α) {f : α → Except Crash β}
    (hf : ∀ a, f a ≠ .error .nullPointer) : uncaught x >>= f ≠ .error .nullPointer := by
  intro h
  rcases Outcome.bind_eq_error.mp h with hx | ⟨a, -, ha⟩
  · exact uncaught_ne_nullPointer x hx
  · exact hf a ha

namespace Registry

variable {Conn : Type} [DecidableEq Conn] {r r' : Registry Conn} {c : Conn} {request : Protocol}

/-- The address of the peer of a connection. -/
def remote (r : Registry Conn) (c : Conn) : Option Address := (r.clients c).map Client.remote

section Remote

omit [DecidableEq Conn] in
theorem remote_of_clients {client : Client} (h : r.clients c = some client) :
    r.remote c = some client.remote := by
  rw [remote, h]
  rfl

omit [DecidableEq Conn] in
theorem provider_of_clients {client : Client} (h : r.clients c = some client) :
    r.provider c = client.providerAddr := by
  rw [provider, h]
  rfl

theorem remote_setClient {client client' : Client} (hclient : r.clients c = some client)
    (hsame : client'.remote = client.remote) : (r.setClient c client').remote = r.remote := by
  funext c'
  by_cases hc : c' = c
  · subst hc
    rw [remote_of_clients hclient, ← hsame]
    simp [remote, setClient]
  · simp [remote, setClient, hc]

theorem remote_sendResponse (r : Registry Conn) (c : Conn) (response : Protocol) :
    (r.sendResponse c response).remote = r.remote := by
  rw [sendResponse]
  split
  · rfl
  · next client hclient =>
    exact remote_setClient hclient rfl

theorem remote_publish_loop (subscribers : List (Bytes × Conn)) (response : Protocol)
    (r : Registry Conn) :
    (subscribers.foldl
      (fun r x => if r.isConnected x.2 then r.sendResponse x.2 response else r) r).remote
      = r.remote := by
  induction subscribers generalizing r with
  | nil => rfl
  | cons x subscribers ih =>
      rw [List.foldl_cons, ih]
      split
      · exact remote_sendResponse r x.2 response
      · rfl

theorem remote_publish {key : Bytes} {data : Bool × Bytes} (h : r.publish env key data = .ok r') :
    r'.remote = r.remote := by
  rw [publish] at h
  split at h
  · cases h
    rfl
  · obtain ⟨content, -, h⟩ := Outcome.bind_eq_ok.mp h
    cases h
    exact remote_publish_loop _ _ r

theorem remote_handleServiceRegister {providerAddr : Option IPv4Address} {response : Protocol}
    (h : r.handleServiceRegister env c request providerAddr = .ok (response, r')) :
    r'.remote = r.remote := by
  cases providerAddr with
  | none => cases h
  | some providerAddr =>
      rw [handleServiceRegister] at h
      obtain ⟨content, -, h⟩ := Outcome.bind_eq_ok.mp h
      obtain ⟨r₁, hpublish, h⟩ := Outcome.bind_eq_ok.mp h
      cases h
      exact remote_publish (r := r.emplace c request.content providerAddr.toString) hpublish

omit [DecidableEq Conn] in
theorem clients_handleSubscribe {response : Protocol}
    (h : r.handleSubscribe env c request = .ok (response, r')) : r'.clients = r.clients := by
  rw [handleSubscribe] at h
  obtain ⟨ba₁, -, h⟩ := Outcome.bind_eq_ok.mp h
  obtain ⟨⟨key, ba₂⟩, -, h⟩ := Outcome.bind_eq_ok.mp h
  obtain ⟨ba₃, -, h⟩ := Outcome.bind_eq_ok.mp h
  obtain ⟨ba₄, -, h⟩ := Outcome.bind_eq_ok.mp h
  obtain ⟨content, -, h⟩ := Outcome.bind_eq_ok.mp h
  cases h
  rfl

end Remote

section Frame

/-- A frame leaves the peer's address alone and sets the provider's only if it announces one. -/
theorem handleFrame_remote {client : Client} (hclient : r.clients c = some client)
    (hlength : request.content.length < 2 ^ 32)
    (hrun : r.handleFrame env c client request = .ok r') :
    r'.remote c = r.remote c ∧
      ((r'.provider c).isSome = true ↔
        (r.provider c).isSome = true ∨ request.msgType = .rpcProvider) := by
  have hsend : ∀ {r₁ : Registry Conn}, r₁.remote = r.remote → r₁.provider = r.provider →
      request.msgType ≠ .rpcProvider → ∀ response,
      (r₁.sendResponse c response).remote c = r.remote c ∧
        (((r₁.sendResponse c response).provider c).isSome = true ↔
          (r.provider c).isSome = true ∨ request.msgType = .rpcProvider) := by
    intro r₁ hremote hprovider hmsg response
    rw [remote_sendResponse, hremote, (quiet_sendResponse r₁ c response).provider, hprovider]
    exact ⟨rfl, (or_iff_left hmsg).symm⟩
  rw [handleFrame] at hrun
  cases hmsg : request.msgType with
  | heartbeatPacket =>
      simp only [hmsg] at hrun hsend
      cases hrun
      exact hsend rfl rfl (by simp) _
  | rpcProvider =>
      simp only [hmsg] at hrun
      obtain ⟨providerAddr, -, hrun⟩ := Outcome.bind_eq_ok.mp hrun
      cases hrun
      let client' := { client with providerAddr := some providerAddr }
      have hsame : client'.remote = client.remote := rfl
      have hremote := remote_setClient hclient hsame
      refine ⟨congrFun hremote c, ?_⟩
      rw [provider_setClient, Function.update_self]
      exact iff_of_true rfl (Or.inr rfl)
  | rpcServiceRegister =>
      simp only [hmsg] at hrun hsend
      obtain ⟨⟨response, r₁⟩, hregister, hrun⟩ := Outcome.bind_eq_ok.mp hrun
      cases hrun
      refine hsend (remote_handleServiceRegister hregister) ?_ (by simp) response
      cases hprovider : client.providerAddr with
      | none =>
          rw [hprovider] at hregister
          cases hregister
      | some providerAddr =>
          rw [hprovider] at hregister
          obtain ⟨response', r₂, hregister', hquiet⟩ :=
            handleServiceRegister_spec env r c request hlength providerAddr
          rw [hregister] at hregister'
          cases hregister'
          exact hquiet.provider
  | rpcServiceDiscover =>
      simp only [hmsg] at hrun hsend
      obtain ⟨response, -, hrun⟩ := Outcome.bind_eq_ok.mp hrun
      cases hrun
      exact hsend rfl rfl (by simp) response
  | rpcSubscribeRequest =>
      simp only [hmsg] at hrun hsend
      obtain ⟨⟨response, r₁⟩, hsubscribe, hrun⟩ := Outcome.bind_eq_ok.mp hrun
      cases hrun
      have hquiet := quiet_handleSubscribe hsubscribe
      refine hsend ?_ hquiet.provider (by simp) response
      funext c'
      rw [remote, clients_handleSubscribe hsubscribe, remote]
  | _ =>
      simp only [hmsg] at hrun
      cases hrun
      exact ⟨rfl, by simp⟩

/-- A request to announce a provider is got through just if the peer's address is an IPv4 one. -/
theorem handleProvider_ok_iff {remote : Address} :
    (∃ address, handleProvider env request remote = .ok address) ↔ remote ≠ .other := by
  obtain ⟨ba, hcontent, -⟩ := Serializer.ofContent_spec env.heap request.content
  have hspare : Spare ba 5 := Serializer.ofContent_spare hcontent (by decide)
  obtain ⟨⟨port, ba'⟩, hport⟩ := hspare.readVarintLoop env.host 0 (0 : BitVec 32)
  have hread : ba.readUint32 env.host = .ok (port, ba') := hport
  rw [handleProvider, hcontent]
  simp only [uncaught, Except.mapError, bind, Except.bind, hread]
  cases remote with
  | other => simp
  | ipv4 address => simp

theorem perform_rpcProvider_iff {client : Client} (hclient : r.clients c = some client)
    (hmsg : request.msgType = .rpcProvider) :
    (∃ r', r.perform env (.frame c request) = .ok r') ↔ client.remote ≠ .other := by
  have hprovider : (∃ address, handleProvider env request client.remote = .ok address) ↔
      client.remote ≠ .other := handleProvider_ok_iff
  rw [← hprovider]
  simp only [perform, hclient, handleFrame, hmsg]
  constructor
  · rintro ⟨r', hrun⟩
    obtain ⟨address, haddress, -⟩ := Outcome.bind_eq_ok.mp hrun
    exact ⟨address, haddress⟩
  · rintro ⟨address, haddress⟩
    rw [haddress]
    exact ⟨_, rfl⟩

theorem perform_rpcServiceRegister_iff {client : Client} (hclient : r.clients c = some client)
    (hlength : request.content.length < 2 ^ 32) (hmsg : request.msgType = .rpcServiceRegister) :
    (∃ r', r.perform env (.frame c request) = .ok r') ↔ client.providerAddr.isSome = true := by
  simp only [perform, hclient, handleFrame, hmsg]
  cases client.providerAddr with
  | none =>
      refine iff_of_false ?_ (by simp)
      rintro ⟨r', hrun⟩
      cases hrun
  | some providerAddr =>
      obtain ⟨response, r₁, hregister, -⟩ :=
        handleServiceRegister_spec env r c request hlength providerAddr
      rw [hregister]
      exact iff_of_true ⟨_, rfl⟩ rfl

omit [DecidableEq Conn] in
theorem handleServiceDiscover_ne_nullPointer :
    r.handleServiceDiscover env request ≠ .error .nullPointer := by
  rw [handleServiceDiscover]
  refine uncaught_bind_ne_nullPointer _ fun content => ?_
  simp

omit [DecidableEq Conn] in
theorem handleSubscribe_ne_nullPointer :
    r.handleSubscribe env c request ≠ .error .nullPointer := by
  rw [handleSubscribe]
  refine uncaught_bind_ne_nullPointer _ fun ba₁ => ?_
  refine uncaught_bind_ne_nullPointer _ fun x => ?_
  refine uncaught_bind_ne_nullPointer _ fun ba₂ => ?_
  refine uncaught_bind_ne_nullPointer _ fun ba₃ => ?_
  refine uncaught_bind_ne_nullPointer _ fun content => ?_
  simp

/-- Only what a provider asks for follows a pointer that may be null. -/
theorem perform_ne_nullPointer (hmsg : fromProvider request = false) :
    r.perform env (.frame c request) ≠ .error .nullPointer := by
  intro hrun
  rw [perform] at hrun
  split at hrun
  · cases hrun
  · rw [handleFrame] at hrun
    cases htype : request.msgType with
    | rpcProvider => simp [fromProvider, htype] at hmsg
    | rpcServiceRegister => simp [fromProvider, htype] at hmsg
    | rpcServiceDiscover =>
        simp only [htype] at hrun
        rcases Outcome.bind_eq_error.mp hrun with hdiscover | ⟨response, -, hsend⟩
        · exact handleServiceDiscover_ne_nullPointer hdiscover
        · cases hsend
    | rpcSubscribeRequest =>
        simp only [htype] at hrun
        rcases Outcome.bind_eq_error.mp hrun with hsubscribe | ⟨⟨response, r₁⟩, -, hsend⟩
        · exact handleSubscribe_ne_nullPointer hsubscribe
        · cases hsend
    | _ =>
        simp only [htype] at hrun
        cases hrun

end Frame

section Loop

theorem handleClient_cons {requests : List Protocol} :
    r.handleClient env c (request :: requests)
      = r.perform env (.frame c request) >>= fun r => r.handleClient env c requests := by
  rw [handleClient, List.foldlM_cons]
  rfl

/-- What the frames so far have left of the connection. -/
theorem handleClient_remote {client : Client} (hclient : r.clients c = some client)
    {requests : List Protocol} (hlength : ∀ request ∈ requests, request.content.length < 2 ^ 32)
    (hrun : r.handleClient env c requests = .ok r') :
    ∃ client', r'.clients c = some client' ∧ client'.remote = client.remote ∧
      (client'.providerAddr.isSome = true ↔ client.providerAddr.isSome = true ∨
        ∃ earlier ∈ requests, earlier.msgType = .rpcProvider) := by
  induction requests generalizing r client with
  | nil =>
      cases hrun
      exact ⟨client, hclient, rfl, by simp⟩
  | cons request requests ih =>
      rw [handleClient_cons] at hrun
      obtain ⟨r₁, hfirst, hrest⟩ := Outcome.bind_eq_ok.mp hrun
      simp only [perform, hclient] at hfirst
      obtain ⟨hremote, hprovider⟩ :=
        handleFrame_remote hclient (hlength request List.mem_cons_self) hfirst
      rw [remote_of_clients hclient] at hremote
      obtain ⟨client₁, hclient₁, hsame₁⟩ := Option.map_eq_some_iff.mp hremote
      rw [provider_of_clients hclient, provider_of_clients hclient₁] at hprovider
      obtain ⟨client', hclient', hsame, hiff⟩ :=
        ih hclient₁ (fun x hx => hlength x (List.mem_cons_of_mem _ hx)) hrest
      refine ⟨client', hclient', hsame.trans hsame₁, ?_⟩
      rw [hiff, hprovider, List.exists_mem_cons_iff]
      exact or_assoc

/-- **What `handleClient` withstands.** It gets through every request of a provider without
following a null pointer just if providers have IPv4 addresses and announce themselves first. -/
theorem withstands_iff_introduced (env : Env) {client : Client} (hclient : r.clients c = some client)
    (hnew : client.providerAddr = none) {requests : List Protocol}
    (hlength : ∀ request ∈ requests, request.content.length < 2 ^ 32) :
    r.Withstands env c requests ↔ r.Introduced env c client.remote requests := by
  have hround : ∀ before request r', before ++ [request] <+: requests →
      r.handleClient env c before = .ok r' → fromProvider request = true →
      ((∃ r'', r'.perform env (.frame c request) = .ok r'') ↔
        (request.msgType = .rpcProvider → client.remote ≠ .other) ∧
          (request.msgType = .rpcServiceRegister →
            ∃ earlier ∈ before, earlier.msgType = .rpcProvider)) := by
    intro before request r' hinit hrun hmsg
    have hmem : request ∈ requests := hinit.subset (by simp)
    obtain ⟨client', hclient', hremote, hannounced⟩ := handleClient_remote hclient
      (fun x hx => hlength x (hinit.subset (List.mem_append_left _ hx))) hrun
    rw [hnew] at hannounced
    cases htype : request.msgType with
    | rpcProvider =>
        rw [perform_rpcProvider_iff hclient' htype, hremote]
        simp
    | rpcServiceRegister =>
        rw [perform_rpcServiceRegister_iff hclient' (hlength request hmem) htype, hannounced]
        simp
    | _ => simp [fromProvider, htype] at hmsg
  constructor
  · intro h before request r' hinit hrun
    have hserved := h.served before request r' hinit hrun
    constructor
    · intro htype
      have hmsg : fromProvider request = true := by simp [fromProvider, htype]
      exact ((hround before request r' hinit hrun hmsg).mp (hserved hmsg)).1 htype
    · intro htype
      have hmsg : fromProvider request = true := by simp [fromProvider, htype]
      exact ((hround before request r' hinit hrun hmsg).mp (hserved hmsg)).2 htype
  · intro h
    have hserved : ∀ before request r', before ++ [request] <+: requests →
        r.handleClient env c before = .ok r' → fromProvider request = true →
        ∃ r'', r'.perform env (.frame c request) = .ok r'' := by
      intro before request r' hinit hrun hmsg
      exact (hround before request r' hinit hrun hmsg).mpr (h before request r' hinit hrun)
    refine ⟨?_, hserved⟩
    intro hnull
    obtain ⟨before, request, r', hinit, hrun, hlast⟩ := Outcome.foldlM_eq_error hnull
    cases hmsg : fromProvider request with
    | false => exact perform_ne_nullPointer hmsg hlast
    | true =>
        obtain ⟨r'', hok⟩ := hserved before request r' hinit hrun hmsg
        rw [hlast] at hok
        cases hok

/-- A provider that announces itself and registers a service. -/
theorem withstands_iff_introduced_register :
    (init.setClient false (fresh hostA)).Withstands plainEnv false
      [announce 80, register [97]] := by
  have hlength : ∀ request ∈ [announce 80, register [97]], request.content.length < 2 ^ 32 := by
    decide
  have hclient : (init.setClient false (fresh hostA)).clients false = some (fresh hostA) := rfl
  refine (withstands_iff_introduced plainEnv hclient rfl hlength).mpr ?_
  intro before request r' hinit _
  refine ⟨fun _ => by simp [fresh], fun htype => ?_⟩
  cases before with
  | nil =>
      obtain rfl : request = announce 80 := by simpa using hinit
      cases htype
  | cons first before =>
      obtain rfl : first = announce 80 := (List.cons_prefix_cons.mp hinit).1
      exact ⟨announce 80, List.mem_cons_self, rfl⟩

/-- A connection whose first frame registers a service takes the registry down. -/
theorem not_withstands_register_first : ∃ r : Registry Bool,
    init.perform plainEnv (.accept false (.ipv4 hostA)) = .ok r ∧
      ¬ r.Withstands plainEnv false [register [97]] := by
  refine ⟨init.setClient false (fresh hostA), rfl, ?_⟩
  intro h
  exact h.safe rfl

end Loop

end Registry

end AsyncRPC.ServiceRegistry
