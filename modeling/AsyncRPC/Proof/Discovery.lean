import AsyncRPC.Proof.ConnectionPool

/-!
# What a pool decodes of a discovery

Neither side puts the code of a result on the wire. So the pool cannot tell the result that stands
for "no such service" from one with an address, and takes for a refusal what its own objects hold.
-/

namespace AsyncRPC.ConnectionPool

open ServiceRegistry
open AsyncRPC.ByteArray (Holds Reads stringBytes)

variable {env : Env} {prior : Nat → Result (.scalar .string)} {name : Bytes}

namespace Pool

theorem decodeResults_succ {cnt i : Nat} {result : List Bytes} {ba ba' : ByteArray}
    {res : Result (.scalar .string)} (hread : (prior i).read env.host env.order ba = .ok (res, ba'))
    {val : Bytes} (hval : res.val = val) :
    decodeResults env prior (cnt + 1) i result ba
      = if (prior i).code = .noMethod then .ok ([], ba')
        else decodeResults env prior cnt (i + 1) (result ++ [val]) ba' := by
  subst hval
  obtain ⟨-, -, -, hcode⟩ := Result.read_inv hread
  rw [decodeResults, hread]
  change (if res.code = .noMethod then _ else _) = _
  rw [hcode]

/-- `discover` returns what it decodes with objects whose strings are new. -/
theorem results_of_decodeResults {unset : Nat → RPCState} {cnt i : Nat} {result : List Bytes}
    {ba : ByteArray} {found : Option (List Bytes)}
    (h : results env unset cnt i result ba = .ok found) :
    ∃ ba', decodeResults env (fun i => { code := unset i, msg := [], val := [] }) cnt i result ba
      = .ok (found.getD [], ba') := by
  induction cnt generalizing i result ba with
  | zero =>
      cases h
      exact ⟨ba, rfl⟩
  | succ cnt ih =>
      obtain ⟨⟨res, ba₁⟩, hread, h⟩ := Outcome.bind_eq_ok.mp h
      obtain ⟨-, -, -, hcode⟩ := Result.read_inv hread
      rw [decodeResults_succ hread rfl]
      change (if res.code = .noMethod then _ else _) = _ at h
      rw [hcode] at h
      change (if unset i = .noMethod then _ else _) = _ at h
      change ∃ ba', (if unset i = .noMethod then _ else _) = _
      by_cases hrefused : unset i = .noMethod
      · rw [if_pos hrefused] at h ⊢
        cases h
        exact ⟨ba₁, rfl⟩
      · rw [if_neg hrefused] at h ⊢
        exact ih h

theorem decode_of_discover {unset : Nat → RPCState} {p p' : Pool} {response : Protocol}
    {result : List Bytes} (h : p.discover env unset name (some response) = .ok (result, p')) :
    ∃ ba, decode env (fun i => { code := unset i, msg := [], val := [] }) response
      = .ok (result, ba) := by
  obtain ⟨ba, hba, h⟩ := Outcome.bind_eq_ok.mp h
  obtain ⟨⟨name', ba₁⟩, hread₁, h⟩ := Outcome.bind_eq_ok.mp h
  obtain ⟨⟨cnt, ba₂⟩, hread₂, h⟩ := Outcome.bind_eq_ok.mp h
  obtain ⟨found, hresults, h⟩ := Outcome.bind_eq_ok.mp h
  have hresult : result = found.getD [] := by
    cases found with
    | none =>
        cases h
        rfl
    | some addrs =>
        dsimp only at h
        split at h
        · cases h
          rfl
        · obtain ⟨p₂, -, h⟩ := Outcome.bind_eq_ok.mp h
          cases h
          rfl
  rw [decode, hba]
  change ∃ ba', (Scalar.string.read env.host ba >>= _) = _
  rw [hread₁]
  change ∃ ba', (Scalar.uint32.read env.host ba₁ >>= _) = _
  rw [hread₂, hresult]
  exact results_of_decodeResults hresults

/-- Where no object holds a refusal, the results of a service are all taken, to the last byte. -/
theorem decodeResults_taken {addrs : List Bytes} (haddrs : ∀ a ∈ addrs, a.length < 2 ^ 63) (i : Nat)
    (result : List Bytes) {ba : ByteArray} {before : Bytes}
    (hba : Holds ba before (addrs.flatMap addressBytes))
    (hprior : ∀ j < addrs.length, (prior (i + j)).code ≠ .noMethod) :
    ∃ ba', decodeResults env prior addrs.length i result ba = .ok (result ++ addrs, ba') ∧
      ba'.position = (before ++ addrs.flatMap addressBytes).length := by
  induction addrs generalizing i result ba before with
  | nil => exact ⟨ba, by simp [decodeResults], by simpa using hba.position_eq⟩
  | cons a addrs ih =>
      obtain ⟨ha, hrest⟩ := List.forall_mem_cons.mp haddrs
      rw [List.flatMap_cons] at hba ⊢
      obtain ⟨res, ba₁, hread, ⟨-, -, hval⟩, hba₁⟩ := reads_result env (prior i) ha hba
      obtain ⟨ba₂, hrun, hposition⟩ := ih hrest (i + 1) (result ++ [a]) hba₁ fun j hj => by
        rw [Nat.add_assoc, Nat.add_comm 1 j]
        exact hprior (j + 1) (Nat.succ_lt_succ hj)
      have hfirst : (prior i).code ≠ .noMethod := hprior 0 (Nat.succ_pos _)
      refine ⟨ba₂, ?_, ?_⟩
      · rw [List.length_cons, decodeResults_succ hread hval, if_neg hfirst, hrun,
          List.append_assoc, List.singleton_append]
      · rw [hposition, List.append_assoc]

/-- One object that holds a refusal is enough for the pool to decode nothing. -/
theorem decodeResults_refused {addrs : List Bytes} (haddrs : ∀ a ∈ addrs, a.length < 2 ^ 63) (i : Nat)
    (result : List Bytes) {ba : ByteArray} {before : Bytes}
    (hba : Holds ba before (addrs.flatMap addressBytes)) {j : Nat} (hj : j < addrs.length)
    (hprior : (prior (i + j)).code = .noMethod) :
    ∃ ba', decodeResults env prior addrs.length i result ba = .ok ([], ba') := by
  induction addrs generalizing i j result ba before with
  | nil => exact absurd hj (Nat.not_lt_zero j)
  | cons a addrs ih =>
      obtain ⟨ha, hrest⟩ := List.forall_mem_cons.mp haddrs
      rw [List.flatMap_cons] at hba
      obtain ⟨res, ba₁, hread, -, hba₁⟩ := reads_result env (prior i) ha hba
      rw [List.length_cons, decodeResults_succ hread rfl]
      by_cases hrefused : (prior i).code = .noMethod
      · exact ⟨ba₁, if_pos hrefused⟩
      · rw [if_neg hrefused]
        cases j with
        | zero => exact absurd hprior hrefused
        | succ j =>
            refine ih hrest (i + 1) _ hba₁ (Nat.lt_of_succ_lt_succ hj) ?_
            rw [Nat.add_assoc, Nat.add_comm 1 j]
            exact hprior

end Pool

section Decodes

variable {Conn : Type} {r : Registry Conn} {response : Protocol}

/-- Decoding, from the results on. -/
theorem decode_header (prior : Nat → Result (.scalar .string)) (hname : name.length < 2 ^ 32)
    (haddrs : ∀ a ∈ addresses r name, a.length < 2 ^ 63)
    (hresponse : r.handleServiceDiscover env (Protocol.create .rpcServiceDiscover name)
      = .ok response) :
    ∃ ba before, Pool.decode env prior response
        = Pool.decodeResults env prior ((r.discovered name).length % 2 ^ 32) 0 [] ba ∧
      Holds ba before (((r.discovered name).take ((r.discovered name).length % 2 ^ 32)).flatMap
        (Result.encode env.host)) ∧
      response.content = before ++ ((r.discovered name).take
        ((r.discovered name).length % 2 ^ 32)).flatMap (Result.encode env.host) := by
  obtain ⟨ba, ba₁, ba₂, before, cnt, hba, hread₁, hread₂, hcount, hholds, hcontent⟩ :=
    discover_header hname haddrs hresponse
  refine ⟨ba₂, before, ?_, hholds, hcontent⟩
  rw [Pool.decode, hba]
  change (Scalar.string.read env.host ba >>= _) = _
  rw [hread₁]
  change (Scalar.uint32.read env.host ba₁ >>= _) = _
  rw [hread₂, ← hcount]
  rfl

/-- The value of the result that stands for "no such service" is looked for behind the content. -/
theorem not_decodes_nil (prior : Nat → Result (.scalar .string)) (hname : name.length < 2 ^ 32)
    (hnone : addresses r name = [])
    (hresponse : r.handleServiceDiscover env (Protocol.create .rpcServiceDiscover name)
      = .ok response) (addrs : List Bytes) : ¬ Decodes env prior addrs response := by
  rintro ⟨ba', hrun, hposition⟩
  obtain ⟨ba, before, hdecode, hholds, hcontent⟩ :=
    decode_header prior hname (by simp [hnone]) hresponse
  rw [hdecode] at hrun
  rw [discovered_of_nil hnone] at hrun hholds hcontent
  change Pool.decodeResults env prior 1 0 [] ba = _ at hrun
  have hencode : (Result.encode env.host
      ({ code := .noMethod, msg := ascii "discover service: " ++ name, val := [] } :
        Result (.scalar .string))) = stringBytes (ascii "discover service: " ++ name) := by
    rw [Result.encode, if_neg RPCState.noConfusion, List.append_nil]
  have htake : ∀ res : Result (.scalar .string), ([res].take ([res].length % 2 ^ 32)).flatMap
      (Result.encode env.host) = res.encode env.host ++ [] := fun _ => rfl
  rw [htake, hencode] at hholds hcontent
  obtain ⟨⟨res, ba₁⟩, hread, hrun⟩ := Outcome.bind_eq_ok.mp hrun
  have hlast : ba₁ = ba' := by
    change (if res.code = .noMethod then _ else _) = _ at hrun
    split at hrun
    · cases hrun
      rfl
    · cases hrun
      rfl
  subst hlast
  obtain ⟨ba₂, hmsg, hval, -⟩ := Result.read_inv hread
  obtain ⟨_, _, hmsg', -, hholds₂⟩ :=
    ByteArray.reads_readStringVint (length_noMethod hname) hholds
  cases hmsg.symm.trans hmsg'
  have hmoved := (Ty.scalar .string).advances_read (prior 0).val hval
  rw [hholds₂.position_eq, hposition, hcontent, List.append_nil] at hmoved
  exact Nat.not_succ_le_self _ hmoved

/-- **When discovery agrees with the registry.** The pool decodes just the registered addresses and
just the content of the response, if there are some, if their number fits into the count, and if no
object they are read into holds `RPC_NO_METHOD` before. -/
theorem decodes_iff (env : Env) (prior : Nat → Result (.scalar .string)) (r : Registry Conn)
    (name : Bytes) (response : Protocol) (hname : name.length < 2 ^ 32)
    (haddrs : ∀ a ∈ addresses r name, a.length < 2 ^ 63)
    (hresponse : r.handleServiceDiscover env (Protocol.create .rpcServiceDiscover name)
      = .ok response) :
    Decodes env prior (addresses r name) response ↔
      addresses r name ≠ [] ∧ (addresses r name).length < 2 ^ 32 ∧
        ∀ i < (addresses r name).length, (prior i).code ≠ .noMethod := by
  by_cases hsome : addresses r name = []
  · exact iff_of_false (not_decodes_nil prior hname hsome hresponse _) fun h => h.1 hsome
  obtain ⟨ba, before, hdecode, hholds, hcontent⟩ := decode_header prior hname haddrs hresponse
  have hdiscovered := discovered_of_ne_nil hsome
  have hlength : (r.discovered name).length = (addresses r name).length := by
    rw [hdiscovered, List.length_map]
  obtain ⟨taken, htaken⟩ : ∃ taken, taken =
    (addresses r name).take ((addresses r name).length % 2 ^ 32) := ⟨_, rfl⟩
  have hcount : (addresses r name).length % 2 ^ 32 = taken.length := by
    rw [htaken, List.length_take]
    exact (Nat.min_eq_left (Nat.mod_le _ _)).symm
  have htakenAddrs : ∀ a ∈ taken, a.length < 2 ^ 63 := by
    intro a ha
    rw [htaken] at ha
    exact haddrs a (List.mem_of_mem_take ha)
  rw [hlength, hdiscovered, ← List.map_take, List.flatMap_map, ← htaken] at hholds hcontent
  rw [hlength, hcount] at hdecode
  have hbytes : ∀ a : Bytes, Result.encode env.host
      ({ code := .success, msg := [], val := a } : Result (.scalar .string)) = addressBytes a :=
    fun _ => rfl
  simp only [hbytes] at hholds hcontent
  constructor
  · rintro ⟨ba', hrun, -⟩
    rw [hdecode] at hrun
    have hprior : ∀ i < taken.length, (prior i).code ≠ .noMethod := by
      intro i hi hrefused
      obtain ⟨ba'', hnone⟩ := Pool.decodeResults_refused htakenAddrs 0 [] hholds hi
        (by rw [Nat.zero_add]; exact hrefused)
      rw [hnone] at hrun
      exact hsome (Prod.mk.inj (Except.ok.inj hrun)).1.symm
    obtain ⟨ba'', hall, -⟩ := Pool.decodeResults_taken htakenAddrs 0 [] hholds
      (by simpa using hprior)
    rw [hall] at hrun
    have hsame : taken = addresses r name := (Prod.mk.inj (Except.ok.inj hrun)).1
    rw [hsame] at hprior hcount
    exact ⟨hsome, hcount ▸ Nat.mod_lt _ (by decide), hprior⟩
  · rintro ⟨-, hfits, hprior⟩
    have hsame : taken = addresses r name := by
      rw [htaken, Nat.mod_eq_of_lt hfits, List.take_length]
    rw [← hsame] at hprior
    obtain ⟨ba', hall, hposition⟩ := Pool.decodeResults_taken htakenAddrs 0 [] hholds
      (by simpa using hprior)
    refine ⟨ba', ?_, ?_⟩
    · rw [hdecode, hall, ← hsame]
      rfl
    · rw [hposition, hcontent]

/-- An object that holds garbage, yet no refusal. -/
def garbage : Result (.scalar .string) := { code := .closed, msg := [1], val := [2, 3] }

theorem decodes_iff_oneService :
    Decodes Registry.plainEnv (fun _ => garbage) (addresses oneService [97]) oneResponse :=
  (decodes_iff Registry.plainEnv (fun _ => garbage) oneService [97] oneResponse (by decide) (by decide)
    discover_oneService).mpr ⟨by decide, by decide, fun _ _ => RPCState.noConfusion⟩

/-- What the registry answers when it has no service. -/
def noResponse : Protocol :=
  Protocol.create .rpcServiceDiscoverResponse ([1, 97, 1, 19] ++ ascii "discover service: a")

/-- A registry without services: the pool takes an empty string for the address of one. -/
theorem not_decodes_no_service :
    (Registry.init : Registry Bool).handleServiceDiscover Registry.plainEnv
        (Protocol.create .rpcServiceDiscover [97]) = .ok noResponse ∧
      Prod.fst <$> Pool.decode Registry.plainEnv (fun _ => garbage) noResponse = .ok [[]] ∧
      ¬ Decodes Registry.plainEnv (fun _ => garbage) (addresses (Registry.init : Registry Bool) [97])
        noResponse := by
  have hresponse : (Registry.init : Registry Bool).handleServiceDiscover Registry.plainEnv
      (Protocol.create .rpcServiceDiscover [97]) = .ok noResponse := by
    decide +kernel
  refine ⟨hresponse, by decide +kernel, ?_⟩
  exact not_decodes_nil _ (by decide) rfl hresponse _

end Decodes

end AsyncRPC.ConnectionPool
