import AsyncRPC.ConnectionPool
import AsyncRPC.Proof.ServiceRegistry

/-!
# What a pool makes of the notices

The callback adds an address when it quits and removes it when it joins, so the pool's list moves
against the registry's. How often an address is in the list is a counter that stops at zero, and its
closed form says when the two meet again in the end.
-/

namespace AsyncRPC.ConnectionPool

open Emplace ServiceRegistry
open AsyncRPC.ByteArray (Holds Writes Reads stringBytes varint)

variable {env : Env} {unset : Nat → RPCState} {p p' : Pool} {name : Bytes}

section Notices

/-- What the callback makes of a list. -/
def applied (addrs : List Bytes) (data : Bool × Bytes) : List Bytes :=
  if data.1 then addrs.erase data.2 else addrs ++ [data.2]

theorem callback_spec (env : Env) (p : Pool) (name : Bytes) {ba : ByteArray} {before : Bytes}
    {data : Bool × Bytes} (hdata : data.2.length < 2 ^ 63)
    (hba : Holds ba before (noticeTy.encode env.host data)) :
    ∃ p', p.callback env name ba = .ok p' ∧ p'.subscribeHandle = p.subscribeHandle ∧
      (p'.addressMap name).getD [] = applied ((p.addressMap name).getD []) data := by
  obtain ⟨online, addr⟩ := data
  have hbool : Reads (Scalar.bool.read env.host) (Scalar.bool.encode env.host online) (· = online) :=
    Scalar.reads_read trivial
  have hstring : Reads (Scalar.string.read env.host) (stringBytes addr) (· = addr) :=
    Scalar.reads_read hdata
  have hbytes : Holds ba before
      (Scalar.bool.encode env.host online ++ (stringBytes addr ++ [])) := by
    rw [List.append_nil]
    exact hba
  obtain ⟨serviceLaunch, ba₁, hlaunch, rfl, hba₁⟩ := hbool hbytes
  obtain ⟨addr, ba₂, haddr, rfl, -⟩ := hstring hba₁
  rw [Pool.callback, hlaunch]
  change ∃ p', (Scalar.string.read env.host ba₁ >>= _) = .ok p' ∧ _
  rw [haddr]
  cases serviceLaunch with
  | false =>
      refine ⟨_, rfl, rfl, ?_⟩
      change (Function.update p.addressMap name _ name).getD [] = _
      rw [Function.update_self]
      rfl
  | true =>
      cases hmap : p.addressMap name with
      | none => exact ⟨p, rfl, rfl, by rw [hmap]; rfl⟩
      | some addrs =>
          refine ⟨_, rfl, rfl, ?_⟩
          change (Function.update p.addressMap name _ name).getD [] = _
          rw [Function.update_self]
          rfl

/-- A notice reaches the callback as it was published. -/
theorem notice_spec (env : Env) (hname : name.length < 2 ^ 32) (data : Bool × Bytes)
    (hdata : data.2.length < 2 ^ 32)
    (hsubscribed : p.subscribeHandle (rpcServiceSubscribe ++ name) = some name) :
    ∃ p', p.notice env name data = .ok p' ∧ p'.subscribeHandle = p.subscribeHandle ∧
      (p'.addressMap name).getD [] = applied ((p.addressMap name).getD []) data := by
  have hkey := length_key hname
  have hlength := length_noticeBytes env.host (rpcServiceSubscribe ++ name) data
  have hkey' : (rpcServiceSubscribe ++ name).length < 2 ^ 63 := Nat.lt_trans hkey (by decide)
  have hdata' : data.2.length < 2 ^ 63 := Nat.lt_trans hdata (by decide)
  have hcontent : Serializer.contentOf env.heap (putNotice env (rpcServiceSubscribe ++ name) data)
      = .ok (noticeBytes env.host (rpcServiceSubscribe ++ name) data) :=
    Serializer.contentOf_spec (writes_putNotice hkey' hdata') (by omega)
  have hstring : Reads (Scalar.string.read env.host) (stringBytes (rpcServiceSubscribe ++ name))
      (· = rpcServiceSubscribe ++ name) := Scalar.reads_read hkey'
  obtain ⟨ba, hba, hholds⟩ := Serializer.ofContent_spec env.heap
    (noticeBytes env.host (rpcServiceSubscribe ++ name) data)
  obtain ⟨key, ba₁, hread, hkeyEq, hba₁⟩ := hstring hholds
  obtain ⟨p₁, hcallback, hhandle, hmap⟩ := callback_spec env p name hdata' hba₁
  have hpublish : p.handlePublish env (Protocol.create .rpcPublishRequest
      (noticeBytes env.host (rpcServiceSubscribe ++ name) data)) = .ok p₁ := by
    subst hkeyEq
    simp only [Pool.handlePublish, Protocol.create, hba, hread, hsubscribed, bind, Except.bind]
    exact hcallback
  refine ⟨{ p₁ with sent := p₁.sent ++ [Protocol.create .rpcPublishResponse []] }, ?_, hhandle, hmap⟩
  rw [Pool.notice, hcontent]
  change (Pool.handlePublish env p _ >>= _) = _
  rw [hpublish]
  rfl

theorem count_applied (addrs : List Bytes) (data : Bool × Bytes) (a : Bytes) :
    (applied addrs data).count a
      = if data.2 = a then (if data.1 then addrs.count a - 1 else addrs.count a + 1)
        else addrs.count a := by
  obtain ⟨online, addr⟩ := data
  by_cases ha : addr = a
  · subst ha
    cases online with
    | false => simp [applied]
    | true => simp [applied]
  · cases online with
    | false => simp [applied, ha]
    | true => simp [applied, ha, List.count_erase_of_ne (Ne.symm ha)]

/-- After a run of notices every address is in the list as often as its counter says. -/
theorem notices_run (env : Env) (hname : name.length < 2 ^ 32) (notices : List (Bool × Bytes))
    (hnotices : ∀ data ∈ notices, data.2.length < 2 ^ 32)
    (hsubscribed : p.subscribeHandle (rpcServiceSubscribe ++ name) = some name) :
    ∃ p', notices.foldlM (Pool.notice env name) p = .ok p' ∧ ∀ a,
      ((p'.addressMap name).getD []).count a
        = Counter.drain (((p.addressMap name).getD []).count a) (Counter.flagsOf a notices) := by
  induction notices generalizing p with
  | nil => exact ⟨p, rfl, fun _ => rfl⟩
  | cons data notices ih =>
      obtain ⟨hdata, hrest⟩ := List.forall_mem_cons.mp hnotices
      obtain ⟨p₁, hrun, hhandle, hmap⟩ := notice_spec env hname data hdata hsubscribed
      obtain ⟨p₂, hrun₂, hcount⟩ := ih hrest (hhandle ▸ hsubscribed)
      refine ⟨p₂, ?_, ?_⟩
      · rw [List.foldlM_cons, hrun]
        exact hrun₂
      · intro a
        rw [hcount a, hmap, count_applied, Counter.flagsOf_cons]
        split
        · rfl
        · rfl

theorem count_changed {addrs : List Bytes} {data : Bool × Bytes}
    (hlegal : data.1 = false → data.2 ∈ addrs) (a : Bytes) :
    ((changed addrs data).count a : Int)
      = addrs.count a + if data.2 = a then Counter.sign data.1 else 0 := by
  obtain ⟨online, addr⟩ := data
  by_cases ha : addr = a
  · subst ha
    cases online with
    | true => simp [changed, Counter.sign]
    | false =>
        have hpos : 0 < addrs.count addr := List.count_pos_iff.mpr (hlegal rfl)
        simp only [changed, Counter.sign, Bool.false_eq_true, if_false, if_true,
          List.count_erase_self]
        omega
  · cases online with
    | true => simp [changed, ha]
    | false => simp [changed, ha, List.count_erase_of_ne (Ne.symm ha)]

theorem count_registered {addrs : List Bytes} {notices : List (Bool × Bytes)}
    (hlegal : Legal addrs notices) (a : Bytes) :
    ((notices.foldl changed addrs).count a : Int)
      = addrs.count a + Counter.net (Counter.flagsOf a notices) := by
  induction notices generalizing addrs with
  | nil => simp [Counter.flagsOf, Counter.net]
  | cons data notices ih =>
      rw [List.foldl_cons, ih hlegal.2, count_changed hlegal.1, Counter.flagsOf_cons]
      split
      · rw [Counter.net]
        omega
      · omega

end Notices

section Discover

variable {Conn : Type} {r : Registry Conn} {response : Protocol}

def addressBytes (a : Bytes) : Bytes := stringBytes [] ++ stringBytes a

theorem reads_result (env : Env) (prior : Result (.scalar .string)) {a : Bytes}
    (ha : a.length < 2 ^ 63) :
    Reads (prior.read env.host env.order) (addressBytes a)
      fun res => res.code = prior.code ∧ res.msg = [] ∧ res.val = a := by
  have hempty : ([] : Bytes).length < 2 ^ 63 := by decide
  have hval : Reads ((Ty.scalar .string).read env.host env.order prior.val) (stringBytes a) (· = a) :=
    ByteArray.reads_readStringVint ha
  exact Result.reads_read hempty hval

/-- Results with addresses are all taken, unless one of them is taken for a refusal. -/
theorem results_spec (env : Env) (unset : Nat → RPCState) {addrs : List Bytes}
    (haddrs : ∀ a ∈ addrs, a.length < 2 ^ 63) (i : Nat) (acc : List Bytes) {ba : ByteArray}
    {before : Bytes} (hba : Holds ba before (addrs.flatMap addressBytes)) :
    Pool.results env unset addrs.length i acc ba
      = .ok (if (List.range addrs.length).any fun j => unset (i + j) = .noMethod then none
          else some (acc ++ addrs)) := by
  induction addrs generalizing i acc ba before with
  | nil => simp [Pool.results]
  | cons a addrs ih =>
      obtain ⟨ha, hrest⟩ := List.forall_mem_cons.mp haddrs
      rw [List.flatMap_cons] at hba
      obtain ⟨res, ba₁, hread, ⟨hcode, -, hval⟩, hba₁⟩ :=
        reads_result env { code := unset i, msg := [], val := [] } ha hba
      rw [List.length_cons, Pool.results, hread]
      change (if res.code = .noMethod then _ else _) = _
      rw [hcode, hval, List.range_succ_eq_map, List.any_cons, List.any_map]
      by_cases hrefused : unset i = .noMethod
      · simp [hrefused]
      · rw [if_neg hrefused, ih hrest (i + 1) (acc ++ [a]) hba₁]
        have hshift : ∀ j, unset (i + 1 + j) = unset (i + (j + 1)) := by
          intro j
          rw [Nat.add_assoc, Nat.add_comm 1 j]
        simp [hrefused, hshift, Function.comp_def]

theorem length_noMethod (hname : name.length < 2 ^ 32) :
    (ascii "discover service: " ++ name).length < 2 ^ 63 := by
  have hbegins : (ascii "discover service: ").length = 18 := by decide
  rw [List.length_append, hbegins]
  omega

theorem discovered_valid (hname : name.length < 2 ^ 32)
    (haddrs : ∀ a ∈ addresses r name, a.length < 2 ^ 63) :
    ∀ res ∈ r.discovered name, res.Valid := by
  have hempty : ([] : Bytes).length < 2 ^ 63 := by decide
  rw [Registry.discovered]
  split
  · intro res hres
    rw [List.mem_singleton.mp hres]
    exact ⟨length_noMethod hname, hempty⟩
  · intro res hres
    obtain ⟨e, he, rfl⟩ := List.mem_map.mp hres
    exact ⟨hempty, haddrs e.address (List.mem_map_of_mem he)⟩

theorem discover_content (hname : name.length < 2 ^ 32)
    (haddrs : ∀ a ∈ addresses r name, a.length < 2 ^ 63)
    (hresponse : r.handleServiceDiscover env (Protocol.create .rpcServiceDiscover name)
      = .ok response) :
    response.content = stringBytes name ++ (varint ((r.discovered name).length % 2 ^ 32) ++
      ((r.discovered name).take ((r.discovered name).length % 2 ^ 32)).flatMap
        (Result.encode env.host)) := by
  rw [Registry.handleServiceDiscover] at hresponse
  obtain ⟨content, hcontent, hresponse⟩ := Outcome.bind_eq_ok.mp hresponse
  cases hresponse
  have hname' : name.length < 2 ^ 63 := Nat.lt_trans hname (by decide)
  have hvalid := discovered_valid hname haddrs
  have hcount : (BitVec.ofNat 32 (r.discovered name).length).toNat
      = (r.discovered name).length % 2 ^ 32 := BitVec.toNat_ofNat _ _
  have hloop : Writes (fun ba => ((r.discovered name).take
      (BitVec.ofNat 32 (r.discovered name).length).toNat).foldlM
        (fun ba res => res.write env.host env.heap ba) ba) _ :=
    Ty.writes_foldlM fun res hres => Result.writes_write (hvalid res (List.mem_of_mem_take hres))
  have hstring : Writes (ByteArray.writeStringVint env.heap name) (stringBytes name) :=
    ByteArray.writes_writeStringVint hname'
  have huint32 : Writes (ByteArray.writeUint32 env.heap (BitVec.ofNat 32 (r.discovered name).length))
      (varint (BitVec.ofNat 32 (r.discovered name).length).toNat) :=
    ByteArray.writes_writeUint32 _
  have hputs := hstring.bind (huint32.bind hloop)
  rw [hcount] at hputs
  exact Serializer.contentOf_inv hputs (Outcome.mapError_eq_ok.mp hcontent)

/-- What the response starts with is read back, and the results are left. -/
theorem discover_header (hname : name.length < 2 ^ 32)
    (haddrs : ∀ a ∈ addresses r name, a.length < 2 ^ 63)
    (hresponse : r.handleServiceDiscover env (Protocol.create .rpcServiceDiscover name)
      = .ok response) :
    ∃ ba ba₁ ba₂ before, ∃ cnt : BitVec 32, Serializer.ofContent env.heap response.content = .ok ba ∧
      Scalar.string.read env.host ba = .ok (name, ba₁) ∧
      Scalar.uint32.read env.host ba₁ = .ok (cnt, ba₂) ∧
      cnt.toNat = (r.discovered name).length % 2 ^ 32 ∧
      Holds ba₂ before (((r.discovered name).take ((r.discovered name).length % 2 ^ 32)).flatMap
        (Result.encode env.host)) ∧
      response.content = before ++ ((r.discovered name).take
        ((r.discovered name).length % 2 ^ 32)).flatMap (Result.encode env.host) := by
  have hcontent := discover_content hname haddrs hresponse
  have hstring : Reads (Scalar.string.read env.host) (stringBytes name) (· = name) :=
    ByteArray.reads_readStringVint (Nat.lt_trans hname (by decide))
  have huint32 : Reads (Scalar.uint32.read env.host) (varint ((r.discovered name).length % 2 ^ 32))
      (· = BitVec.ofNat 32 (r.discovered name).length) := by
    rw [← BitVec.toNat_ofNat]
    exact ByteArray.reads_readUint32 _
  obtain ⟨ba, hba, hholds⟩ := Serializer.ofContent_spec env.heap response.content
  rw [hcontent] at hholds
  obtain ⟨_, ba₁, hread₁, rfl, hholds₁⟩ := hstring hholds
  obtain ⟨cnt, ba₂, hread₂, hcnt, hholds₂⟩ := huint32 hholds₁
  refine ⟨ba, ba₁, ba₂, _, cnt, hba, hread₁, hread₂, ?_, hholds₂, ?_⟩
  · rw [show (cnt : BitVec 32) = BitVec.ofNat 32 (r.discovered _).length from hcnt]
    exact BitVec.toNat_ofNat _ _
  · rw [hcontent, List.nil_append, List.append_assoc]

theorem discovered_of_ne_nil (hsome : addresses r name ≠ []) :
    r.discovered name = (addresses r name).map fun a => { code := .success, msg := [], val := a } := by
  have hrange : (r.service.filter fun e => e.name = name).isEmpty = false := by
    rw [List.isEmpty_eq_false_iff]
    intro hnil
    rw [addresses, hnil] at hsome
    exact hsome rfl
  rw [Registry.discovered, addresses, List.map_map]
  simp only [hrange]
  rfl

theorem discovered_of_nil (hnone : addresses r name = []) :
    r.discovered name
      = [{ code := .noMethod, msg := ascii "discover service: " ++ name, val := [] }] := by
  have hrange : (r.service.filter fun e => e.name = name) = [] := List.map_eq_nil_iff.mp hnone
  rw [Registry.discovered, hrange]
  rfl

/-- One result that carries no value: the pool reads on behind it. -/
theorem results_beyond {ba ba₁ ba₂ : ByteArray} {name' : Bytes} {cnt : BitVec 32}
    (hba : Serializer.ofContent env.heap response.content = .ok ba)
    (hread₁ : Scalar.string.read env.host ba = .ok (name', ba₁))
    (hread₂ : Scalar.uint32.read env.host ba₁ = .ok (cnt, ba₂)) {found : Option (List Bytes)}
    (hresults : Pool.results env unset 1 0 [] ba₂ = .ok found) :
    found.getD [] = listed env unset [] response := by
  obtain ⟨⟨res, ba₃⟩, hres, hresults⟩ := Outcome.bind_eq_ok.mp hresults
  obtain ⟨ba', hmsg, hval, hcode⟩ := Result.read_inv hres
  have hbeyond : beyond env response = .ok res.val := by
    rw [beyond, hba]
    change (Scalar.string.read env.host ba >>= _) = _
    rw [hread₁]
    change (Scalar.uint32.read env.host ba₁ >>= _) = _
    rw [hread₂]
    change (ba₂.readStringVint env.host >>= _) = _
    rw [hmsg]
    change (ba'.readStringVint env.host >>= _) = _
    rw [show ba'.readStringVint env.host = .ok (res.val, ba₃) from hval]
    rfl
  rw [listed, if_pos rfl, hbeyond]
  change found.getD [] = if (List.range 1).any (fun i => unset i = .noMethod) then [] else [res.val]
  change (if res.code = .noMethod then _ else _) = _ at hresults
  rw [hcode] at hresults
  by_cases hrefused : unset 0 = .noMethod
  · rw [if_pos hrefused] at hresults
    cases hresults
    simp [hrefused]
    rfl
  · rw [if_neg hrefused] at hresults
    cases hresults
    simp [hrefused]
    rfl

/-- The pool takes its list from the response as `listed` says. -/
theorem refresh_listed (hname : name.length < 2 ^ 32)
    (haddrs : ∀ a ∈ addresses r name, a.length < 2 ^ 63)
    (hresponse : r.handleServiceDiscover env (Protocol.create .rpcServiceDiscover name)
      = .ok response)
    (hrefresh : p.refresh env unset name (some response) = .ok p') :
    (p'.addressMap name).getD [] = listed env unset (addresses r name) response := by
  obtain ⟨⟨result, p₁⟩, hdiscover, hrefresh⟩ := Outcome.bind_eq_ok.mp hrefresh
  cases hrefresh
  change (Function.update p₁.addressMap name (some result) name).getD [] = _
  rw [Function.update_self]
  change result = _
  obtain ⟨ba, hba, hdiscover⟩ := Outcome.bind_eq_ok.mp hdiscover
  obtain ⟨⟨name', ba₁⟩, hread₁, hdiscover⟩ := Outcome.bind_eq_ok.mp hdiscover
  obtain ⟨⟨cnt, ba₂⟩, hread₂, hdiscover⟩ := Outcome.bind_eq_ok.mp hdiscover
  obtain ⟨found, hresults, hdiscover⟩ := Outcome.bind_eq_ok.mp hdiscover
  have hresult : result = found.getD [] := by
    cases found with
    | none =>
        cases hdiscover
        rfl
    | some addrs =>
        dsimp only at hdiscover
        split at hdiscover
        · cases hdiscover
          rfl
        · obtain ⟨p₂, -, hdiscover⟩ := Outcome.bind_eq_ok.mp hdiscover
          cases hdiscover
          rfl
  rw [hresult]
  obtain ⟨_, _, _, _, _, hba', hread₁', hread₂', hcount, hholds₂, -⟩ :=
    discover_header hname haddrs hresponse
  rw [hba] at hba'
  cases hba'
  rw [hread₁] at hread₁'
  cases hread₁'
  rw [hread₂] at hread₂'
  cases hread₂'
  rw [hcount] at hresults
  by_cases hnone : addresses r name = []
  · rw [discovered_of_nil hnone] at hresults
    rw [hnone]
    exact results_beyond hba hread₁ hread₂ hresults
  · have hdiscovered := discovered_of_ne_nil hnone
    have hlength : (r.discovered name).length = (addresses r name).length := by
      rw [hdiscovered, List.length_map]
    have htake : ((addresses r name).take ((addresses r name).length % 2 ^ 32)).length
        = (addresses r name).length % 2 ^ 32 := by
      rw [List.length_take]
      exact Nat.min_eq_left (Nat.mod_le _ _)
    rw [hlength, hdiscovered, ← List.map_take, List.flatMap_map] at hholds₂
    have hspec := results_spec env unset (fun a ha => haddrs a (List.mem_of_mem_take ha)) 0 []
      hholds₂
    rw [hlength, ← htake, hspec] at hresults
    cases hresults
    rw [listed, if_neg hnone]
    simp only [Nat.zero_add, List.nil_append]
    split
    · rfl
    · rfl

/-- The pool agrees with the registry after the notices just if they are balanced. -/
theorem agrees_iff_balanced (env : Env) (unset : Nat → RPCState) (r : Registry Conn) (p p' : Pool)
    (name : Bytes) (response : Protocol) (notices : List (Bool × Bytes))
    (hname : name.length < 2 ^ 32) (haddrs : ∀ a ∈ addresses r name, a.length < 2 ^ 63)
    (hnotices : ∀ data ∈ notices, data.2.length < 2 ^ 32) (hlegal : Legal (addresses r name) notices)
    (hresponse : r.handleServiceDiscover env (Protocol.create .rpcServiceDiscover name)
      = .ok response)
    (hrefresh : p.refresh env unset name (some response) = .ok p')
    (hsubscribed : p'.subscribeHandle (rpcServiceSubscribe ++ name) = some name) :
    (∃ p'', notices.foldlM (Pool.notice env name) p' = .ok p'' ∧
        Agrees p'' name (notices.foldl changed (addresses r name))) ↔
      Balanced (listed env unset (addresses r name) response) (addresses r name) notices := by
  obtain ⟨q, hrun, hcount⟩ := notices_run env hname notices hnotices hsubscribed
  rw [refresh_listed hname haddrs hresponse hrefresh] at hcount
  have hagrees : Agrees q name (notices.foldl changed (addresses r name)) ↔
      Balanced (listed env unset (addresses r name) response) (addresses r name) notices := by
    rw [Agrees, List.perm_iff_count, Balanced]
    refine forall_congr' fun a => ?_
    have hdrain := Counter.drain_eq ((listed env unset (addresses r name) response).count a)
      (Counter.flagsOf a notices)
    have hregistered := count_registered hlegal a
    rw [← hcount a] at hdrain
    omega
  constructor
  · rintro ⟨q', hrun', hq'⟩
    rw [hrun] at hrun'
    cases hrun'
    exact hagrees.mp hq'
  · intro hbalanced
    exact ⟨q, hrun, hagrees.mpr hbalanced⟩

end Discover

section Examples

def oneService : Registry Bool := { Registry.init with service := [⟨0, [97], [120]⟩] }

def newPool : Pool := { subscribeHandle := fun _ => none, addressMap := fun _ => none, sent := [] }

def oneResponse : Protocol := Protocol.create .rpcServiceDiscoverResponse [1, 97, 1, 0, 1, 120]

theorem discover_oneService :
    oneService.handleServiceDiscover Registry.plainEnv (Protocol.create .rpcServiceDiscover [97])
      = .ok oneResponse := by
  decide +kernel

theorem refresh_oneService :
    ∃ p, newPool.refresh Registry.plainEnv (fun _ => .success) [97] (some oneResponse) = .ok p ∧
      p.subscribeHandle (rpcServiceSubscribe ++ [97]) = some [97] ∧ p.addressMap [97] = some [[120]] := by
  obtain ⟨p, hrun, hvalue⟩ := Outcome.map_eq_ok.mp (show
    (fun p : Pool => (p.subscribeHandle (rpcServiceSubscribe ++ [97]), p.addressMap [97])) <$>
        newPool.refresh Registry.plainEnv (fun _ => .success) [97] (some oneResponse)
      = .ok (some [97], some [[120]]) by decide +kernel)
  obtain ⟨hhandle, hmap⟩ := Prod.mk.inj hvalue
  exact ⟨p, hrun, hhandle, hmap⟩

/-- The address joins once more and quits once. -/
theorem agrees_iff_balanced_rejoin :
    ∃ p p', newPool.refresh Registry.plainEnv (fun _ => .success) [97] (some oneResponse) = .ok p ∧
      [(true, [120]), (false, [120])].foldlM (Pool.notice Registry.plainEnv [97]) p = .ok p' ∧
      Agrees p' [97] ([(true, [120]), (false, [120])].foldl changed (addresses oneService [97])) := by
  obtain ⟨p, hrefresh, hsubscribed, -⟩ := refresh_oneService
  have hbalanced : Balanced (listed Registry.plainEnv (fun _ => .success) (addresses oneService [97])
      oneResponse) (addresses oneService [97]) [(true, [120]), (false, [120])] := by
    intro a
    by_cases ha : ([120] : Bytes) = a
    · subst ha
      decide
    · have hflags : Counter.flagsOf a [(true, ([120] : Bytes)), (false, [120])] = [] := by
        simp [Counter.flagsOf, ha]
      have hlisted : listed Registry.plainEnv (fun _ => .success) (addresses oneService [97])
          oneResponse = [[120]] := by decide
      have haddrs : addresses oneService [97] = [[120]] := by decide
      rw [hflags, hlisted, haddrs, List.count_singleton]
      simp [ha, Counter.peak, Counter.net]
  obtain ⟨p', hrun, hagrees⟩ := (agrees_iff_balanced Registry.plainEnv (fun _ => .success) oneService
    newPool p [97] oneResponse [(true, [120]), (false, [120])] (by decide) (by decide) (by decide)
    (by decide) discover_oneService hrefresh hsubscribed).mpr hbalanced
  exact ⟨p, p', hrefresh, hrun, hagrees⟩

/-- Another address joins, and the pool does not list it. -/
theorem not_agrees_join :
    ∃ p p', newPool.refresh Registry.plainEnv (fun _ => .success) [97] (some oneResponse) = .ok p ∧
      p.subscribeHandle (rpcServiceSubscribe ++ [97]) = some [97] ∧
      [(true, [121])].foldlM (Pool.notice Registry.plainEnv [97]) p = .ok p' ∧
      ¬ Agrees p' [97] ([(true, [121])].foldl changed (addresses oneService [97])) := by
  obtain ⟨p, hrefresh, hsubscribed, hmap⟩ := refresh_oneService
  obtain ⟨p', hrun, -, hmap'⟩ := notice_spec Registry.plainEnv
    (show ([97] : Bytes).length < 2 ^ 32 by decide) (true, [121]) (by decide) hsubscribed
  refine ⟨p, p', hrefresh, hsubscribed, ?_, ?_⟩
  · rw [List.foldlM_cons, hrun]
    rfl
  · intro hagrees
    rw [Agrees, hmap', hmap] at hagrees
    have hlength := hagrees.length_eq
    revert hlength
    decide

end Examples

end AsyncRPC.ConnectionPool
