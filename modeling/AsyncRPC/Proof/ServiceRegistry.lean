import AsyncRPC.Lib.Bag
import AsyncRPC.Proof.Rpc
import AsyncRPC.ServiceRegistry

/-!
# The lifetime of registrations

`iters_` indexes `service_` by address, and a connection that closes takes along whatever stands
under the address it announced last. So the entries it leaves or takes wrongly are those where
"registered by this connection" and "under this address" part.
-/

namespace AsyncRPC.ServiceRegistry

open Emplace Transition
open AsyncRPC.ByteArray (Writes Reads stringBytes varint)

variable {env : Env}

section Content

theorem length_key {name : Bytes} (hname : name.length < 2 ^ 32) :
    (rpcServiceSubscribe ++ name).length < 2 ^ 40 := by
  have hbegins : rpcServiceSubscribe.length = 25 := by decide
  rw [List.length_append, hbegins]
  omega

theorem length_decimal_le {n k : Nat} (hk : 0 < k) (h : n < 10 ^ k) : (decimal n).length ≤ k := by
  rw [decimal, List.length_map]
  exact (Nat.length_toDigits_le_iff (by decide) hk).mpr h

theorem length_toString (address : IPv4Address) : address.toString.length ≤ 51 := by
  have hoctet : ∀ shift : Nat, (decimal ((address.addr >>> shift) &&& 0xff#32).toNat).length ≤ 10 := by
    intro shift
    apply length_decimal_le (by decide)
    exact Nat.lt_trans (BitVec.isLt _) (by decide)
  have hport : (decimal address.port.toNat).length ≤ 5 :=
    length_decimal_le (by decide) (Nat.lt_trans (BitVec.isLt _) (by decide))
  have h₃ := hoctet 24
  have h₂ := hoctet 16
  have h₁ := hoctet 8
  have h₀ := hoctet 0
  simp only [IPv4Address.toString, List.length_append, List.length_cons]
  omega

def noticeBytes (host : ByteOrder) (key : Bytes) (data : Bool × Bytes) : Bytes :=
  stringBytes key ++ noticeTy.encode host data

theorem writes_putNotice {key : Bytes} {data : Bool × Bytes} (hkey : key.length < 2 ^ 63)
    (hdata : data.2.length < 2 ^ 63) : Writes (putNotice env key data) (noticeBytes env.host key data) := by
  have hvalid : noticeTy.Valid data := ⟨trivial, hdata⟩
  exact (ByteArray.writes_writeStringVint hkey).bind (Ty.writes_write hvalid)

theorem length_noticeBytes (host : ByteOrder) (key : Bytes) (data : Bool × Bytes) :
    (noticeBytes host key data).length ≤ key.length + data.2.length + 21 := by
  have hkey := ByteArray.length_stringBytes key
  have hdata := ByteArray.length_stringBytes data.2
  have hflag : ((Ty.tupleOne (.scalar .bool)).encode host data.1).length = 1 :=
    ByteOrder.length_bytes host 1 _
  have htuple : noticeTy.encode host data
      = (Ty.tupleOne (.scalar .bool)).encode host data.1 ++ stringBytes data.2 := rfl
  rw [noticeBytes, htuple, List.length_append, List.length_append, hflag]
  omega

end Content

namespace Registry

variable {Conn : Type} [DecidableEq Conn] {r r' r'' : Registry Conn} {c : Conn}

/-- The address a connection announced last. -/
def provider (r : Registry Conn) (c : Conn) : Option IPv4Address :=
  (r.clients c).bind Client.providerAddr

/-- The same registry up to `service_`, the subscriptions and what was sent. -/
structure Aside (r r' : Registry Conn) : Prop where
  iters : r'.iters = r.iters
  emplaced : r'.emplaced = r.emplaced
  made : r'.made = r.made
  connected : r'.isConnected = r.isConnected
  provider : r'.provider = r.provider

/-- The same registry up to the subscriptions and what was sent. -/
structure Quiet (r r' : Registry Conn) : Prop extends Aside r r' where
  service : r'.service = r.service

section Frame

omit [DecidableEq Conn] in
theorem Aside.trans (h : Aside r r') (h' : Aside r' r'') : Aside r r'' :=
  ⟨h'.iters.trans h.iters, h'.emplaced.trans h.emplaced, h'.made.trans h.made,
    h'.connected.trans h.connected, h'.provider.trans h.provider⟩

omit [DecidableEq Conn] in
theorem Quiet.refl (r : Registry Conn) : Quiet r r := ⟨⟨rfl, rfl, rfl, rfl, rfl⟩, rfl⟩

omit [DecidableEq Conn] in
theorem Quiet.trans (h : Quiet r r') (h' : Quiet r' r'') : Quiet r r'' :=
  ⟨h.toAside.trans h'.toAside, h'.service.trans h.service⟩

omit [DecidableEq Conn] in
theorem isConnected_of_clients {client : Client} (h : r.clients c = some client) :
    r.isConnected c = client.connected := by
  rw [isConnected, h]
  rfl

theorem isConnected_setClient (client : Client) :
    (r.setClient c client).isConnected = Function.update r.isConnected c client.connected := by
  funext c'
  by_cases hc : c' = c
  · subst hc
    simp [isConnected, setClient]
  · simp [isConnected, setClient, hc]

theorem provider_setClient (client : Client) :
    (r.setClient c client).provider = Function.update r.provider c client.providerAddr := by
  funext c'
  by_cases hc : c' = c
  · subst hc
    simp [provider, setClient]
  · simp [provider, setClient, hc]

theorem quiet_sendResponse (r : Registry Conn) (c : Conn) (response : Protocol) :
    Quiet r (r.sendResponse c response) := by
  rw [sendResponse]
  split
  · exact Quiet.refl r
  · next client hclient =>
    refine ⟨⟨rfl, rfl, rfl, ?_, ?_⟩, rfl⟩
    · rw [isConnected_setClient]
      exact Function.update_eq_self_iff.mpr (isConnected_of_clients hclient).symm
    · rw [provider_setClient]
      apply Function.update_eq_self_iff.mpr
      rw [provider, hclient]
      rfl

theorem quiet_publish_loop (subscribers : List (Bytes × Conn)) (response : Protocol)
    (r : Registry Conn) :
    Quiet r (subscribers.foldl
      (fun r x => if r.isConnected x.2 then r.sendResponse x.2 response else r) r) := by
  induction subscribers generalizing r with
  | nil => exact Quiet.refl r
  | cons x subscribers ih =>
      rw [List.foldl_cons]
      split
      · exact (quiet_sendResponse r x.2 response).trans (ih _)
      · exact ih r

/-- A notice of ordinary length goes out and changes nothing else. -/
theorem publish_spec (env : Env) (r : Registry Conn) {key : Bytes} (hkey : key.length < 2 ^ 40)
    (online : Bool) {address : Bytes} (haddress : address.length < 2 ^ 40) :
    ∃ r', r.publish env key (online, address) = .ok r' ∧ Quiet r r' := by
  rw [publish]
  split
  · exact ⟨r, rfl, Quiet.refl r⟩
  · have hlength : (noticeBytes env.host key (online, address)).length
        ≤ key.length + address.length + 21 := length_noticeBytes env.host key (online, address)
    have hcontent : Serializer.contentOf env.heap (putNotice env key (online, address))
        = .ok (noticeBytes env.host key (online, address)) :=
      Serializer.contentOf_spec
        (writes_putNotice (Nat.lt_trans hkey (by decide)) (Nat.lt_trans haddress (by decide)))
        (by omega)
    rw [hcontent]
    exact ⟨_, rfl, quiet_publish_loop _ _ r⟩

end Frame

section Index

/-- The index agrees with `service_`: an entry stands in `iters_` under its own address and no other,
and no iterator there is dangling. -/
structure Inv (r : Registry Conn) : Prop where
  nodup : (r.service.map Entry.iter).Nodup
  emplaced : ∀ e ∈ r.service, e.iter < r.emplaced
  indexed : ∀ e ∈ r.service, e.iter ∈ (r.iters e.address).getD []
  live : ∀ address, ∀ i ∈ (r.iters address).getD [], ∃ e ∈ r.service, e.iter = i ∧ e.address = address
  announced : ∀ x ∈ r.made, (r.provider x.1).isSome = true

omit [DecidableEq Conn] in
theorem Inv.quiet (h : r.Inv) (hquiet : Quiet r r') : r'.Inv := by
  obtain ⟨⟨hiters, hemplaced, hmade, -, hprovider⟩, hservice⟩ := hquiet
  refine ⟨?_, ?_, ?_, ?_, ?_⟩
  · rw [hservice]
    exact h.nodup
  · rw [hservice, hemplaced]
    exact h.emplaced
  · rw [hservice, hiters]
    exact h.indexed
  · rw [hservice, hiters]
    exact h.live
  · rw [hmade, hprovider]
    exact h.announced

omit [DecidableEq Conn] in
/-- An entry stands under an address in the index just if it has that address. -/
theorem Inv.mem_iters_iff (h : r.Inv) {e : Entry} (he : e ∈ r.service) (address : Bytes) :
    e.iter ∈ (r.iters address).getD [] ↔ e.address = address := by
  constructor
  · intro hiter
    obtain ⟨e', he', hsame, haddress⟩ := h.live address e.iter hiter
    rw [← haddress, List.inj_on_of_nodup_map h.nodup he' he hsame]
  · rintro rfl
    exact h.indexed e he

/-- The loop of `handleUnregisterService` erases the entries it has iterators to. -/
theorem unregister_loop (env : Env) (address : Bytes) (haddress : address.length < 2 ^ 40) (its : List Nat)
    (hnodup : (r.service.map Entry.iter).Nodup) :
    ∃ r', its.foldlM (unregister env address) r = .ok r' ∧ Aside r r' ∧
      r'.service = r.service.filter fun e => !decide (e.iter ∈ its) := by
  induction its generalizing r with
  | nil => exact ⟨r, rfl, (Quiet.refl r).toAside, by simp⟩
  | cons i its ih =>
      have hkey := length_key (env.freed_length i)
      obtain ⟨r₁, hrun, hquiet⟩ := publish_spec env
        { r with service := r.service.eraseP fun e => e.iter = i } hkey false haddress
      have hservice : r₁.service = r.service.filter fun e => !decide (e.iter = i) := by
        rw [hquiet.service]
        exact Bag.eraseP_eq_filter hnodup i
      obtain ⟨r₂, hrest, haside, hrestService⟩ :=
        ih (hservice ▸ Bag.nodup_map_filter hnodup _)
      refine ⟨r₂, ?_, ?_, ?_⟩
      · rw [List.foldlM_cons, unregister, hrun]
        exact hrest
      · have hfirst : Aside r r₁ :=
          ⟨hquiet.iters, hquiet.emplaced, hquiet.made, hquiet.connected, hquiet.provider⟩
        exact hfirst.trans haside
      · rw [hrestService, hservice, List.filter_filter]
        apply List.filter_congr
        intro e _
        simp [List.mem_cons, Bool.and_comm]

theorem handleUnregisterService_spec (env : Env) (h : r.Inv) (providerAddr : IPv4Address) :
    ∃ r', r.handleUnregisterService env providerAddr = .ok r' ∧ r'.Inv ∧ r'.made = r.made ∧
      r'.isConnected = r.isConnected ∧ r'.provider = r.provider ∧
      r'.service = r.service.filter fun e => !decide (e.address = providerAddr.toString) := by
  have haddress : providerAddr.toString.length < 2 ^ 40 :=
    Nat.lt_of_le_of_lt (length_toString providerAddr) (by decide)
  rw [handleUnregisterService]
  have hkept : (r.service.filter fun e =>
        !decide (e.iter ∈ (r.iters providerAddr.toString).getD []))
      = r.service.filter fun e => !decide (e.address = providerAddr.toString) := by
    apply List.filter_congr
    intro e he
    rw [decide_eq_decide.mpr (h.mem_iters_iff he _)]
  cases hits : r.iters providerAddr.toString with
  | none =>
      rw [hits] at hkept
      refine ⟨r, rfl, h, rfl, rfl, rfl, ?_⟩
      rw [← hkept]
      simp
  | some its =>
      rw [hits] at hkept
      obtain ⟨r₁, hrun, haside, hservice⟩ := unregister_loop env _ haddress its h.nodup
      rw [show (some its).getD [] = its from rfl] at hkept
      rw [hkept] at hservice
      have hmem : ∀ {e}, e ∈ r₁.service ↔ e ∈ r.service ∧ e.address ≠ providerAddr.toString := by
        intro e
        rw [hservice, List.mem_filter, Bool.not_eq_true', decide_eq_false_iff_not]
      refine ⟨{ r₁ with iters := Function.update r₁.iters providerAddr.toString none }, ?_, ?_,
        haside.made, haside.connected, haside.provider, hservice⟩
      · simp only [hrun]
        rfl
      · refine ⟨?_, ?_, ?_, ?_, ?_⟩
        · change (r₁.service.map Entry.iter).Nodup
          rw [hservice]
          exact Bag.nodup_map_filter h.nodup _
        · intro e he
          change e.iter < r₁.emplaced
          rw [haside.emplaced]
          exact h.emplaced e (hmem.mp he).1
        · intro e he
          obtain ⟨hold, hne⟩ := hmem.mp he
          change e.iter ∈ (Function.update r₁.iters providerAddr.toString none e.address).getD []
          rw [Function.update_of_ne hne, haside.iters]
          exact h.indexed e hold
        · intro address i hi
          change i ∈ (Function.update r₁.iters providerAddr.toString none address).getD [] at hi
          by_cases hsame : address = providerAddr.toString
          · rw [hsame, Function.update_self] at hi
            cases hi
          · rw [Function.update_of_ne hsame, haside.iters] at hi
            obtain ⟨e, he, hiter, heq⟩ := h.live address i hi
            exact ⟨e, hmem.mpr ⟨he, heq ▸ hsame⟩, hiter, heq⟩
        · intro x hx
          change (r₁.provider x.1).isSome = true
          rw [haside.provider]
          exact h.announced x (haside.made ▸ hx)

end Index

section Steps

omit [DecidableEq Conn] in
theorem standing_eq (hmade : r'.made = r.made) (hconnected : r'.isConnected = r.isConnected) :
    r'.standing = r.standing := by
  rw [standing, standing, hmade, hconnected]

omit [DecidableEq Conn] in
theorem Law.quiet (h : r.Law) (hquiet : Quiet r r') : r'.Law := by
  rw [Law, hquiet.service, standing_eq hquiet.made hquiet.connected]
  exact h

omit [DecidableEq Conn] in
theorem mem_emplace {name address : Bytes} {e : Entry} :
    e ∈ (r.emplace c name address).service ↔ e = ⟨r.emplaced, name, address⟩ ∨ e ∈ r.service := by
  rw [emplace, (multi_perm _ _ _).mem_iff, List.mem_cons]

omit [DecidableEq Conn] in
theorem inv_emplace (h : r.Inv) (hprovider : (r.provider c).isSome = true) (name address : Bytes) :
    (r.emplace c name address).Inv := by
  have hiters : ∀ a, ((r.emplace c name address).iters a).getD []
      = (r.iters a).getD [] ++ if a = address then [r.emplaced] else [] := by
    intro a
    by_cases ha : a = address
    · subst ha
      simp [emplace]
    · simp [emplace, ha]
  refine ⟨?_, ?_, ?_, ?_, ?_⟩
  · have hperm : ((r.emplace c name address).service.map Entry.iter).Perm
        (r.emplaced :: r.service.map Entry.iter) := (multi_perm _ _ _).map Entry.iter
    rw [hperm.nodup_iff, List.nodup_cons]
    refine ⟨?_, h.nodup⟩
    intro hmem
    obtain ⟨e, he, hiter⟩ := List.mem_map.mp hmem
    exact absurd (h.emplaced e he) (by rw [hiter]; exact Nat.lt_irrefl _)
  · intro e he
    change e.iter < r.emplaced + 1
    rcases mem_emplace.mp he with rfl | hold
    · exact Nat.lt_succ_self _
    · exact Nat.lt_succ_of_lt (h.emplaced e hold)
  · intro e he
    rw [hiters, List.mem_append]
    rcases mem_emplace.mp he with rfl | hold
    · right
      rw [if_pos rfl]
      exact List.mem_singleton_self _
    · left
      exact h.indexed e hold
  · intro a i hi
    rw [hiters, List.mem_append] at hi
    rcases hi with hold | hnew
    · obtain ⟨e, he, hiter, haddress⟩ := h.live a i hold
      exact ⟨e, mem_emplace.mpr (Or.inr he), hiter, haddress⟩
    · split at hnew
      · next ha =>
        refine ⟨⟨r.emplaced, name, address⟩, mem_emplace.mpr (Or.inl rfl), ?_, ha.symm⟩
        exact (List.mem_singleton.mp hnew).symm
      · cases hnew
  · intro x hx
    change (r.provider x.1).isSome = true
    rcases List.mem_append.mp hx with hold | hnew
    · exact h.announced x hold
    · rw [List.mem_singleton.mp hnew]
      exact hprovider

omit [DecidableEq Conn] in
theorem law_emplace (hlaw : r.Law) (hconnected : r.isConnected c = true) (name address : Bytes) :
    (r.emplace c name address).Law := by
  have hstanding : (r.emplace c name address).standing = r.standing ++ [(c, name, address)] := by
    change (r.made ++ [(c, name, address)]).filter (fun x => r.isConnected x.1) = _
    rw [List.filter_append, standing]
    simp [hconnected]
  rw [Law, hstanding, List.map_append]
  calc ((r.emplace c name address).service.map fun e => (e.name, e.address)).Perm
        ((name, address) :: r.service.map fun e => (e.name, e.address)) := (multi_perm _ _ _).map _
    List.Perm _ ((name, address) :: r.standing.map Prod.snd) := hlaw.cons _
    List.Perm _ (r.standing.map Prod.snd ++ [(name, address)]) :=
      (List.perm_append_singleton _ _).symm

theorem handleServiceRegister_spec (env : Env) (r : Registry Conn) (c : Conn) (request : Protocol)
    (hlength : request.content.length < 2 ^ 32) (providerAddr : IPv4Address) :
    ∃ response r', r.handleServiceRegister env c request (some providerAddr) = .ok (response, r') ∧
      Quiet (r.emplace c request.content providerAddr.toString) r' := by
  have hvalid : (Result.success request.content : Result (.scalar .string)).Valid :=
    ⟨by simp [Result.success, ascii], Nat.lt_trans hlength (by decide)⟩
  have hbytes : ((Result.success request.content : Result (.scalar .string)).encode env.host).length
      < 2 ^ 63 := by
    have hmsg := ByteArray.length_stringBytes (ascii "success")
    have hval := ByteArray.length_stringBytes request.content
    have hseven : (ascii "success").length = 7 := by decide
    have hencode : (Result.success request.content : Result (.scalar .string)).encode env.host
        = stringBytes (ascii "success") ++ stringBytes request.content := rfl
    rw [hencode, List.length_append]
    omega
  have hkey := length_key hlength
  have haddress : providerAddr.toString.length < 2 ^ 40 :=
    Nat.lt_of_le_of_lt (length_toString providerAddr) (by decide)
  obtain ⟨r', hpublish, hquiet⟩ := publish_spec env
    (r.emplace c request.content providerAddr.toString) hkey true haddress
  refine ⟨Protocol.create .rpcServiceDiscoverResponse
    ((Result.success request.content : Result (.scalar .string)).encode env.host), r', ?_, hquiet⟩
  rw [handleServiceRegister, Serializer.contentOf_spec (Result.writes_write hvalid) hbytes]
  change (publish env _ _ _ >>= fun r => _) = _
  rw [hpublish]
  rfl

/-- A change of one client that leaves it open or closed as it was and does not take back an
announced address. -/
theorem setClient_spec (h : r.Inv) (hlaw : r.Law) {client : Client}
    (hconnected : client.connected = r.isConnected c)
    (hprovider : (r.provider c).isSome = true → client.providerAddr.isSome = true) :
    (r.setClient c client).Inv ∧ (r.setClient c client).Law := by
  refine ⟨⟨h.nodup, h.emplaced, h.indexed, h.live, ?_⟩, ?_⟩
  · intro x hx
    rw [provider_setClient]
    by_cases hc : x.1 = c
    · rw [hc, Function.update_self]
      exact hprovider (hc ▸ h.announced x hx)
    · rw [Function.update_of_ne hc]
      exact h.announced x hx
  · have hsame : (r.setClient c client).isConnected = r.isConnected := by
      rw [isConnected_setClient, hconnected]
      exact Function.update_eq_self c r.isConnected
    have hstanding : (r.setClient c client).standing = r.standing := standing_eq rfl hsame
    rw [Law, hstanding]
    exact hlaw

omit [DecidableEq Conn] in
theorem quiet_handleSubscribe {request response : Protocol}
    (h : r.handleSubscribe env c request = .ok (response, r')) : Quiet r r' := by
  rw [handleSubscribe] at h
  obtain ⟨ba₁, -, h⟩ := Outcome.bind_eq_ok.mp h
  obtain ⟨⟨key, ba₂⟩, -, h⟩ := Outcome.bind_eq_ok.mp h
  obtain ⟨ba₃, -, h⟩ := Outcome.bind_eq_ok.mp h
  obtain ⟨ba₄, -, h⟩ := Outcome.bind_eq_ok.mp h
  obtain ⟨content, -, h⟩ := Outcome.bind_eq_ok.mp h
  cases h
  exact ⟨⟨rfl, rfl, rfl, rfl, rfl⟩, rfl⟩

theorem handleFrame_spec (h : r.Inv) (hlaw : r.Law) {client : Client}
    (hclient : r.clients c = some client) {request : Protocol}
    (hpossible : r.Possible env (.frame c request)) :
    ∃ r', r.handleFrame env c client request = .ok r' ∧ r'.Inv ∧ r'.Law := by
  obtain ⟨hconnected, hlength, hserved⟩ := hpossible
  have hserved := hserved client hclient
  have hprovider : r.provider c = client.providerAddr := by
    rw [provider, hclient]
    rfl
  have hquiet : ∀ {r₁ : Registry Conn}, r₁.Inv → r₁.Law → ∀ response,
      (r₁.sendResponse c response).Inv ∧ (r₁.sendResponse c response).Law := by
    intro r₁ h₁ hlaw₁ response
    have hsend := quiet_sendResponse r₁ c response
    exact ⟨h₁.quiet hsend, hlaw₁.quiet hsend⟩
  rw [handleFrame]
  cases hmsg : request.msgType with
  | heartbeatPacket => exact ⟨_, rfl, hquiet h hlaw _⟩
  | rpcProvider =>
      rw [hmsg] at hserved
      obtain ⟨address, haddress⟩ := hserved
      simp only [haddress]
      refine ⟨_, rfl, setClient_spec h hlaw ?_ fun _ => rfl⟩
      exact (isConnected_of_clients hclient).symm
  | rpcServiceRegister =>
      rw [hmsg] at hserved
      obtain ⟨providerAddr, haddr⟩ := Option.isSome_iff_exists.mp hserved
      obtain ⟨response, r₁, hrun, hregistered⟩ :=
        handleServiceRegister_spec env r c request hlength providerAddr
      simp only [haddr, hrun]
      have hinv := inv_emplace h (by rw [hprovider, haddr]; rfl) request.content
        providerAddr.toString
      have hemplaced := law_emplace hlaw hconnected request.content providerAddr.toString
      exact ⟨_, rfl, hquiet (hinv.quiet hregistered) (hemplaced.quiet hregistered) response⟩
  | rpcServiceDiscover =>
      rw [hmsg] at hserved
      obtain ⟨response, hresponse⟩ := hserved
      simp only [hresponse]
      exact ⟨_, rfl, hquiet h hlaw response⟩
  | rpcSubscribeRequest =>
      rw [hmsg] at hserved
      obtain ⟨response, r₁, hrun⟩ := hserved
      have hsubscribed := quiet_handleSubscribe hrun
      simp only [hrun]
      exact ⟨_, rfl, hquiet (h.quiet hsubscribed) (hlaw.quiet hsubscribed) response⟩
  | _ => exact ⟨r, rfl, h, hlaw⟩

section Close

theorem isConnected_disconnect (r : Registry Conn) (c : Conn) :
    (r.disconnect c).isConnected = Function.update r.isConnected c false := by
  rw [disconnect]
  split
  · next hnone =>
    have hfalse : r.isConnected c = false := by
      rw [isConnected, hnone]
      rfl
    rw [← hfalse, Function.update_eq_self]
  · exact isConnected_setClient _

theorem disconnect_inv (h : r.Inv) (c : Conn) : (r.disconnect c).Inv := by
  rw [disconnect]
  split
  · exact h
  · next client hclient =>
    refine ⟨h.nodup, h.emplaced, h.indexed, h.live, ?_⟩
    intro x hx
    rw [provider_setClient]
    by_cases hc : x.1 = c
    · have hannounced := h.announced x hx
      rw [hc, provider, hclient] at hannounced
      rw [hc, Function.update_self]
      exact hannounced
    · rw [Function.update_of_ne hc]
      exact h.announced x hx

theorem service_disconnect (r : Registry Conn) (c : Conn) : (r.disconnect c).service = r.service := by
  rw [disconnect]
  split
  · rfl
  · rfl

theorem standing_disconnect (r : Registry Conn) (c : Conn) :
    (r.disconnect c).standing = r.standing.filter fun x => !decide (x.1 = c) := by
  have hmade : (r.disconnect c).made = r.made := by
    rw [disconnect]
    split
    · rfl
    · rfl
  rw [standing, standing, hmade, isConnected_disconnect, List.filter_filter]
  apply List.filter_congr
  intro x _
  by_cases hc : x.1 = c
  · simp [hc]
  · simp [hc]

/-- After the entries under an address and the registrations of a connection are gone, the law holds
just if these were the same. -/
theorem law_close_iff (r' : Registry Conn) (hlaw : r.Law) {address : Bytes}
    (hservice : r'.service = r.service.filter fun e => !decide (e.address = address))
    (hstanding : r'.standing = r.standing.filter fun x => !decide (x.1 = c)) :
    r'.Law ↔ ∀ x ∈ r.standing, x.1 = c ↔ x.2.2 = address := by
  have hleft : (r'.service.map fun e => (e.name, e.address)).Perm
      ((r.standing.filter fun x => !decide (x.2.2 = address)).map Prod.snd) := by
    rw [hservice]
    have hfiltered := hlaw.filter fun pair => !decide (pair.2 = address)
    rw [List.filter_map, List.filter_map] at hfiltered
    exact hfiltered
  have hiff : ((r.standing.filter fun x => !decide (x.2.2 = address)).map Prod.snd).Perm
        ((r.standing.filter fun x => !decide (x.1 = c)).map Prod.snd) ↔
      ∀ x ∈ r.standing, (!decide (x.2.2 = address)) = !decide (x.1 = c) :=
    Bag.perm_map_filter_iff (p := fun pair : Bytes × Bytes => !decide (pair.2 = address))
  rw [Law, hstanding]
  constructor
  · intro h x hx
    have hsame := hiff.mp (hleft.symm.trans h) x hx
    rw [Bool.not_inj_iff, decide_eq_decide] at hsame
    exact hsame.symm
  · intro h
    refine hleft.trans (hiff.mpr fun x hx => ?_)
    rw [Bool.not_inj_iff, decide_eq_decide]
    exact (h x hx).symm

theorem handleClosed_spec (h : r.Inv) (hlaw : r.Law) {client : Client}
    (hclient : r.clients c = some client) :
    ∃ r', r.handleClosed env c client = .ok r' ∧ r'.Inv ∧ (r'.Law ↔ r.Keeps (.close c)) := by
  rw [handleClosed, Keeps]
  cases hprovider : client.providerAddr with
  | none =>
      refine ⟨r.disconnect c, rfl, disconnect_inv h c, iff_of_true ?_ ?_⟩
      · -- a connection that announced nothing registered nothing
        have hnone : r.standing.filter (fun x => !decide (x.1 = c)) = r.standing := by
          apply List.filter_eq_self.mpr
          intro x hx
          rw [Bool.not_eq_true', decide_eq_false_iff_not]
          intro hc
          have hannounced := h.announced x (List.mem_filter.mp hx).1
          rw [hc, provider, hclient] at hannounced
          rw [Option.bind_some, hprovider] at hannounced
          cases hannounced
        rw [Law, service_disconnect, standing_disconnect, hnone]
        exact hlaw
      · intro client' providerAddr hclient' hprovider'
        rw [hclient] at hclient'
        cases hclient'
        rw [hprovider] at hprovider'
        cases hprovider'
  | some providerAddr =>
      obtain ⟨r₁, hrun, hinv, hmade, hconnected, -, hservice⟩ :=
        handleUnregisterService_spec env h providerAddr
      refine ⟨r₁.disconnect c, ?_, disconnect_inv hinv c, ?_⟩
      · simp only [hrun]
        rfl
      · have hiff := law_close_iff (r₁.disconnect c) (c := c) hlaw
          (by rw [service_disconnect, hservice])
          (by rw [standing_disconnect, standing_eq hmade hconnected])
        rw [hiff]
        constructor
        · intro hkeeps client' providerAddr' hclient' hprovider'
          rw [hclient] at hclient'
          cases hclient'
          rw [hprovider] at hprovider'
          cases hprovider'
          exact hkeeps
        · intro hkeeps
          exact hkeeps client providerAddr hclient hprovider

end Close

theorem accept_spec (h : r.Inv) (hlaw : r.Law) (hnew : r.clients c = none) (remote : Address) :
    ∃ r', r.perform env (.accept c remote) = .ok r' ∧ r'.Inv ∧ r'.Law := by
  have hother : ∀ x ∈ r.made, x.1 ≠ c := by
    intro x hx hc
    have hannounced := h.announced x hx
    rw [hc, provider, hnew] at hannounced
    cases hannounced
  refine ⟨_, rfl, ⟨h.nodup, h.emplaced, h.indexed, h.live, ?_⟩, ?_⟩
  · intro x hx
    rw [provider_setClient, Function.update_of_ne (hother x hx)]
    exact h.announced x hx
  · have hstanding : (r.setClient c
        { remote := remote, connected := true, providerAddr := none, sent := [] }).standing
        = r.standing := by
      rw [standing, standing, isConnected_setClient]
      apply List.filter_congr
      intro x hx
      rw [Function.update_of_ne (hother x hx)]
    rw [Law, hstanding]
    exact hlaw

/-- One step, exactly: under the law it goes through and keeps the law just if `Keeps` says so. -/
theorem perform_spec (h : r.Inv) (hlaw : r.Law) {event : Event Conn}
    (hpossible : r.Possible env event) :
    ∃ r', r.perform env event = .ok r' ∧ r'.Inv ∧ (r'.Law ↔ r.Keeps event) := by
  cases event with
  | accept c remote =>
      obtain ⟨r', hrun, hinv, hlaw'⟩ := accept_spec h hlaw hpossible remote
      exact ⟨r', hrun, hinv, iff_of_true hlaw' trivial⟩
  | frame c request =>
      rw [perform]
      cases hclient : r.clients c with
      | none => exact ⟨r, rfl, h, iff_of_true hlaw trivial⟩
      | some client =>
          obtain ⟨r', hrun, hinv, hlaw'⟩ := handleFrame_spec h hlaw hclient hpossible
          exact ⟨r', hrun, hinv, iff_of_true hlaw' trivial⟩
  | close c =>
      rw [perform]
      cases hclient : r.clients c with
      | none =>
          refine ⟨r, rfl, h, iff_of_true hlaw ?_⟩
          intro client _ hclient'
          rw [hclient] at hclient'
          cases hclient'
      | some client => exact handleClosed_spec h hlaw hclient

end Steps

theorem perform_inv (event : Event Conn) (h : r.Inv) (hlaw : r.Law) (hpossible : r.Possible env event)
    (hrun : r.perform env event = .ok r') : r'.Inv := by
  obtain ⟨r₁, hrun₁, hinv, -⟩ := perform_spec h hlaw hpossible
  rw [hrun] at hrun₁
  cases hrun₁
  exact hinv

omit [DecidableEq Conn] in
theorem inv_init : (init : Registry Conn).Inv := by
  refine ⟨List.nodup_nil, ?_, ?_, ?_, ?_⟩
  · intro e he
    cases he
  · intro e he
    cases he
  · intro address i hi
    cases hi
  · intro x hx
    cases hx

/-- A run keeps `service_` equal to the standing registrations in every state just if every
connection that closes takes along its own registrations and no others. -/
theorem law_run_iff_keeps_own (env : Env) (events : List (Event Conn))
    (hpossible : AllSteps (attempt (perform env)) (WhenLive (Possible env)) (.ok init) events) :
    AllStates (attempt (perform env)) (Live Law) (.ok init) events ↔
      AllSteps (attempt (perform env)) (WhenLive Keeps) (.ok init) events := by
  refine live_allStates_iff_allSteps ?_ ?_ inv_init (List.Perm.refl _) hpossible
  · intro r event r' h hlaw hevent hrun _
    exact perform_inv event h hlaw hevent hrun
  · intro r event h hlaw hevent
    obtain ⟨r₁, hrun₁, -, hiff⟩ := perform_spec h hlaw hevent
    rw [hrun₁]
    exact hiff

section Examples

/-- Freed names read as empty; the rest is as simple as it gets. -/
def plainEnv : Env :=
  { host := .little, heap := fun _ _ => 0, order := .newestFirst, freed := fun _ => [],
    freed_length := fun _ => by decide, unset := 0 }

/-- The frame that announces a port. -/
def announce (port : BitVec 32) : Protocol := Protocol.create .rpcProvider (varint port.toNat)

def register (name : Bytes) : Protocol := Protocol.create .rpcServiceRegister name

/-- A connection that has just been accepted. -/
def fresh (address : IPv4Address) : Client :=
  { remote := .ipv4 address, connected := true, providerAddr := none, sent := [] }

theorem handleProvider_announce (env : Env) (port : BitVec 32) (address : IPv4Address) :
    handleProvider env (announce port) (.ipv4 address) = .ok (address.setPort (port.setWidth 16)) := by
  obtain ⟨ba, hba, hholds⟩ := Serializer.ofContent_spec env.heap (varint port.toNat)
  rw [← List.append_nil (varint port.toNat)] at hholds
  have hreads : Reads (ByteArray.readUint32 env.host) (varint port.toNat) (· = port) :=
    ByteArray.reads_readUint32 port
  obtain ⟨value, ba', hread, rfl, -⟩ := hreads hholds
  rw [handleProvider]
  simp only [announce, Protocol.create, hba]
  change (uncaught (ba.readUint32 env.host) >>= _) = _
  rw [hread]
  rfl

section Frames

variable (env)

theorem perform_announce {client : Client} (hclient : r.clients c = some client)
    {address : IPv4Address} (hremote : client.remote = .ipv4 address) (port : BitVec 32) :
    r.perform env (.frame c (announce port)) = .ok (r.setClient c
      { client with providerAddr := some (address.setPort (port.setWidth 16)) }) := by
  rw [perform, hclient]
  change handleFrame env r c client (announce port) = _
  rw [handleFrame]
  change (handleProvider env (announce port) client.remote >>= _) = _
  rw [hremote, handleProvider_announce]
  rfl

theorem perform_register {providerAddr : IPv4Address} (hprovider : r.provider c = some providerAddr)
    (name : Bytes) (hlength : name.length < 2 ^ 32) :
    ∃ r', r.perform env (.frame c (register name)) = .ok r' ∧
      Quiet (r.emplace c name providerAddr.toString) r' := by
  obtain ⟨client, hclient, haddr⟩ := Option.bind_eq_some_iff.mp hprovider
  obtain ⟨response, r₁, hrun, hquiet⟩ :=
    handleServiceRegister_spec env r c (register name) hlength providerAddr
  refine ⟨r₁.sendResponse c response, ?_, hquiet.trans (quiet_sendResponse r₁ c response)⟩
  rw [perform, hclient]
  change handleFrame env r c client (register name) = _
  rw [handleFrame]
  change (handleServiceRegister env r c (register name) client.providerAddr >>= _) = _
  rw [haddr, hrun]
  rfl

omit [DecidableEq Conn] in
theorem possible_announce {client : Client} (hclient : r.clients c = some client)
    (hconnected : client.connected = true) {address : IPv4Address}
    (hremote : client.remote = .ipv4 address) (port : BitVec 32) :
    r.Possible env (.frame c (announce port)) := by
  refine ⟨(isConnected_of_clients hclient).trans hconnected, ?_, ?_⟩
  · exact Nat.lt_of_le_of_lt (ByteArray.length_varint _) (by decide)
  · intro client' hclient'
    rw [hclient] at hclient'
    cases hclient'
    exact ⟨_, by rw [hremote, handleProvider_announce]⟩

omit [DecidableEq Conn] in
theorem possible_register (hconnected : r.isConnected c = true) {providerAddr : IPv4Address}
    (hprovider : r.provider c = some providerAddr) (name : Bytes) (hlength : name.length < 2 ^ 32) :
    r.Possible env (.frame c (register name)) := by
  refine ⟨hconnected, hlength, ?_⟩
  intro client hclient
  rw [provider, hclient] at hprovider
  change client.providerAddr.isSome = true
  rw [show client.providerAddr = some providerAddr from hprovider]
  rfl

end Frames

def hostA : IPv4Address := ⟨0x0a000001#32, 0#16⟩

/-- A connection from it that has announced port 80. -/
def announced : Client := { fresh hostA with providerAddr := some (hostA.setPort 80#16) }

/-- Connected, announced, registered, gone. -/
def oneProvider : List (Event Bool) :=
  [.accept false (.ipv4 hostA), .frame false (announce 80), .frame false (register [97]),
    .close false]

theorem perform_announce_hostA {r : Registry Bool} {c : Bool} (hclient : r.clients c = some (fresh hostA)) :
    r.perform plainEnv (.frame c (announce 80)) = .ok (r.setClient c announced) := by
  rw [perform_announce plainEnv hclient rfl 80]
  rfl

theorem law_run_iff_keeps_own_oneProvider :
    AllStates (attempt (perform plainEnv)) (Live Law) (.ok init) oneProvider := by
  obtain ⟨r₁, hr₁⟩ : ∃ r₁ : Registry Bool, r₁ = init.setClient false (fresh hostA) := ⟨_, rfl⟩
  have hclient₁ : r₁.clients false = some (fresh hostA) := by
    rw [hr₁]
    rfl
  have haccept : attempt (perform plainEnv) (.ok init) (.accept false (.ipv4 hostA)) = .ok r₁ := by
    rw [hr₁]
    rfl
  have hannounce : attempt (perform plainEnv) (.ok r₁) (.frame false (announce 80))
      = .ok (r₁.setClient false announced) := by
    rw [attempt_ok, perform_announce_hostA hclient₁]
  have hprovider : (r₁.setClient false announced).provider false = some (hostA.setPort 80#16) := by
    rw [provider_setClient, Function.update_self]
    rfl
  have hconnected : (r₁.setClient false announced).isConnected false = true := by
    rw [isConnected_setClient, Function.update_self]
    rfl
  obtain ⟨r₂, hrun, hquiet⟩ := perform_register plainEnv hprovider [97] (by decide)
  have hregister : attempt (perform plainEnv) (.ok (r₁.setClient false announced))
      (.frame false (register [97])) = .ok r₂ := by
    rw [attempt_ok, hrun]
  refine (law_run_iff_keeps_own plainEnv oneProvider ?_).mpr ?_
  · rw [oneProvider, allSteps_cons, haccept, allSteps_cons, hannounce, allSteps_cons, hregister,
      allSteps_cons]
    refine ⟨rfl, possible_announce plainEnv hclient₁ rfl rfl 80,
      possible_register plainEnv hconnected hprovider [97] (by decide), ?_, allSteps_nil⟩
    change r₂.isConnected false = true
    rw [hquiet.connected]
    exact hconnected
  · rw [oneProvider, allSteps_cons, haccept, allSteps_cons, hannounce, allSteps_cons, hregister,
      allSteps_cons]
    refine ⟨trivial, trivial, trivial, ?_, allSteps_nil⟩
    intro client providerAddr hclient haddr x hx
    have hmade : r₂.made = [(false, [97], (hostA.setPort 80#16).toString)] := by
      rw [hquiet.made, emplace, hr₁]
      rfl
    have hsame : r₂.provider false = some (hostA.setPort 80#16) := by
      rw [hquiet.provider]
      exact hprovider
    rw [provider, hclient, Option.bind_some, haddr] at hsame
    cases hsame
    have hmem := (List.mem_filter.mp hx).1
    rw [hmade, List.mem_singleton] at hmem
    rw [hmem]
    exact iff_of_true rfl rfl

/-- Two connections from one host announce the same port and register, and one of them closes. -/
def twoProviders : List (Event Bool) :=
  [.accept false (.ipv4 hostA), .accept true (.ipv4 hostA), .frame false (announce 80),
    .frame true (announce 80), .frame false (register [97]), .frame true (register [98]),
    .close false]

/-- The entry of the connection that stays is gone too. -/
theorem not_law_run_twoProviders :
    AllSteps (attempt (perform plainEnv)) (WhenLive (Possible plainEnv)) (.ok init) twoProviders ∧
      ¬ AllStates (attempt (perform plainEnv)) (Live Law) (.ok init) twoProviders := by
  obtain ⟨r₁, hr₁⟩ : ∃ r₁ : Registry Bool, r₁ = (init.setClient false (fresh hostA)).setClient true
    (fresh hostA) := ⟨_, rfl⟩
  obtain ⟨r₂, hr₂⟩ : ∃ r₂ : Registry Bool, r₂ = r₁.setClient false announced := ⟨_, rfl⟩
  obtain ⟨r₃, hr₃⟩ : ∃ r₃ : Registry Bool, r₃ = r₂.setClient true announced := ⟨_, rfl⟩
  have hclient₁ : r₁.clients false = some (fresh hostA) := by
    rw [hr₁]
    rfl
  have hclient₂ : r₂.clients true = some (fresh hostA) := by
    rw [hr₂, hr₁]
    rfl
  have hannounce₁ : r₁.perform plainEnv (.frame false (announce 80)) = .ok r₂ := by
    rw [hr₂]
    exact perform_announce_hostA hclient₁
  have hannounce₂ : r₂.perform plainEnv (.frame true (announce 80)) = .ok r₃ := by
    rw [hr₃]
    exact perform_announce_hostA hclient₂
  have hprovider : ∀ c, r₃.provider c = some (hostA.setPort 80#16) := by
    intro c
    rw [hr₃, hr₂, provider_setClient, provider_setClient]
    cases c <;> rfl
  have hconnected : ∀ c, r₃.isConnected c = true := by
    intro c
    rw [hr₃, hr₂, isConnected_setClient, isConnected_setClient]
    cases c <;> rfl
  obtain ⟨r₄, hregister₁, hquiet₄⟩ := perform_register plainEnv (hprovider false) [97] (by decide)
  have hprovider₄ : r₄.provider true = some (hostA.setPort 80#16) := by
    rw [hquiet₄.provider]
    exact hprovider true
  have hconnected₄ : ∀ c, r₄.isConnected c = true := by
    intro c
    rw [hquiet₄.connected]
    exact hconnected c
  obtain ⟨r₅, hregister₂, hquiet₅⟩ := perform_register plainEnv hprovider₄ [98] (by decide)
  have hconnected₅ : ∀ c, r₅.isConnected c = true := by
    intro c
    rw [hquiet₅.connected]
    exact hconnected₄ c
  obtain ⟨r₀, hr₀⟩ : ∃ r₀ : Registry Bool, r₀ = init.setClient false (fresh hostA) := ⟨_, rfl⟩
  have haccept₀ : init.perform plainEnv (.accept false (.ipv4 hostA)) = .ok r₀ := by
    rw [hr₀]
    rfl
  have haccept₁ : r₀.perform plainEnv (.accept true (.ipv4 hostA)) = .ok r₁ := by
    rw [hr₁, hr₀]
    rfl
  have hnew : r₀.clients true = none := by
    rw [hr₀]
    rfl
  have hpossible₁ := possible_announce plainEnv hclient₁ rfl rfl 80
  have hpossible₂ := possible_announce plainEnv hclient₂ rfl rfl 80
  have hpossible₃ := possible_register plainEnv (hconnected false) (hprovider false) [97] (by decide)
  have hpossible₄ := possible_register plainEnv (hconnected₄ true) hprovider₄ [98] (by decide)
  constructor
  · rw [twoProviders, allSteps_cons, attempt_ok, haccept₀, allSteps_cons, attempt_ok, haccept₁,
      allSteps_cons, attempt_ok, hannounce₁, allSteps_cons, attempt_ok, hannounce₂, allSteps_cons,
      attempt_ok, hregister₁, allSteps_cons, attempt_ok, hregister₂, allSteps_cons]
    exact ⟨rfl, hnew, hpossible₁, hpossible₂, hpossible₃, hpossible₄, hconnected₅ false, allSteps_nil⟩
  · intro hall
    rw [twoProviders, allStates_cons, attempt_ok, haccept₀, allStates_cons, attempt_ok, haccept₁,
      allStates_cons, attempt_ok, hannounce₁, allStates_cons, attempt_ok, hannounce₂, allStates_cons,
      attempt_ok, hregister₁, allStates_cons, attempt_ok, hregister₂, allStates_cons, allStates_nil,
      attempt_ok] at hall
    obtain ⟨hlaw, hlaw₀, hlaw₁, hlaw₂, hlaw₃, hlaw₄, hlaw₅, hclosed⟩ := hall
    have h₀ := perform_inv (.accept false (.ipv4 hostA)) inv_init hlaw rfl haccept₀
    have h₁ := perform_inv (.accept true (.ipv4 hostA)) h₀ hlaw₀ hnew haccept₁
    have h₂ := perform_inv _ h₁ hlaw₁ hpossible₁ hannounce₁
    have h₃ := perform_inv _ h₂ hlaw₂ hpossible₂ hannounce₂
    have h₄ := perform_inv _ h₃ hlaw₃ hpossible₃ hregister₁
    have h₅ := perform_inv _ h₄ hlaw₄ hpossible₄ hregister₂
    have hpossible₅ : r₅.Possible plainEnv (.close false) := hconnected₅ false
    obtain ⟨r₆, hclose, -, hiff⟩ := perform_spec h₅ hlaw₅ hpossible₅
    rw [hclose] at hclosed
    have hkeeps := hiff.mp hclosed
    have hprovider₅ : r₅.provider false = some (hostA.setPort 80#16) := by
      rw [hquiet₅.provider]
      change r₄.provider false = _
      rw [hquiet₄.provider]
      exact hprovider false
    obtain ⟨client, hclient, haddr⟩ := Option.bind_eq_some_iff.mp hprovider₅
    have hmem : (true, [98], (hostA.setPort 80#16).toString) ∈ r₅.standing := by
      refine List.mem_filter.mpr ⟨?_, hconnected₅ true⟩
      rw [hquiet₅.made]
      exact List.mem_append_right _ (List.mem_singleton_self _)
    have hsame := (hkeeps client _ hclient haddr _ hmem).mpr rfl
    cases hsame

end Examples

end Registry

end AsyncRPC.ServiceRegistry
