import AsyncRPC.Lib.Outcome
import AsyncRPC.Rpc
import AsyncRPC.Proof.Serializer

/-!
# What a Result keeps on the wire

The code is not written, and the value is read whether or not it was written. So a result survives
just as long as both sides hold the code for success already, and the object read into has nothing in
the containers of its value.
-/

namespace AsyncRPC

open Emplace
open AsyncRPC.ByteArray (Holds Writes Reads stringBytes)

theorem RPCState.toNat_eq_zero {code : RPCState} : code.toNat = 0 ↔ code = .success := by
  cases code with
  | unnamed n => simp [RPCState.toNat]
  | _ => decide

namespace Result

variable {host : ByteOrder} {heap : Heap} {order : HashOrder} {t : Ty}

def encode (host : ByteOrder) (res : Result t) : List UInt8 :=
  stringBytes res.msg ++ if res.code = .success then t.encode host res.val else []

structure Valid (res : Result t) : Prop where
  msg : res.msg.length < 2 ^ 63
  val : t.Valid res.val

theorem writes_write {res : Result t} (h : res.Valid) :
    Writes (res.write host heap) (res.encode host) := by
  have hval : Writes
      (fun ba => if res.code.toNat = 0 then t.write host heap res.val ba else .ok ba)
      (if res.code = .success then t.encode host res.val else []) := by
    by_cases hcode : res.code = .success
    · simp only [if_pos hcode, if_pos (RPCState.toNat_eq_zero.mpr hcode)]
      exact Ty.writes_write h.val
    · simp only [if_neg hcode, if_neg (mt RPCState.toNat_eq_zero.mp hcode)]
      intro ba before hba
      exact ⟨ba, rfl, by simpa using hba⟩
  exact (ByteArray.writes_writeStringVint h.msg).bind hval

/-- The message comes back, then the value as far as `P` says, and the code stays as it was. -/
theorem reads_read {prior : Result t} {msg bytes : List UInt8} {P : t.Val → Prop}
    (hmsg : msg.length < 2 ^ 63) (hval : Reads (t.read host order prior.val) bytes P) :
    Reads (prior.read host order) (stringBytes msg ++ bytes)
      fun res => res.code = prior.code ∧ res.msg = msg ∧ P res.val := by
  refine (ByteArray.reads_readStringVint hmsg).map₂ hval
    (fun msg val _ => ({ code := prior.code, msg := msg, val := val } : Result t)) ?_
  intro _ _ _ hmsgEq hP
  exact ⟨rfl, hmsgEq, hP⟩

theorem read_inv {prior res : Result t} {ba ba' : ByteArray}
    (h : prior.read host order ba = .ok (res, ba')) :
    ∃ ba₁, ba.readStringVint host = .ok (res.msg, ba₁) ∧
      t.read host order prior.val ba₁ = .ok (res.val, ba') ∧ res.code = prior.code := by
  obtain ⟨_, hcode, h⟩ := Outcome.bind_eq_ok.mp h
  cases hcode
  obtain ⟨⟨msg, ba₁⟩, hmsg, h⟩ := Outcome.bind_eq_ok.mp h
  obtain ⟨⟨val, ba₂⟩, hval, h⟩ := Outcome.bind_eq_ok.mp h
  cases h
  exact ⟨ba₁, hmsg, hval, rfl⟩

theorem stored_spec (host : ByteOrder) (heap : Heap) {base : Nat} (hbase : 0 < base) {res : Result t}
    (h : res.Valid) (rest : List UInt8) :
    ∃ ba, res.stored host heap base rest = .ok ((res.encode host).length, ba) ∧
      Holds ba [] (res.encode host ++ rest) := by
  obtain ⟨ba₁, hres, h₁⟩ := writes_write h (ByteArray.holds_create heap hbase)
  obtain ⟨ba₂, hrest, h₂⟩ := h₁.write heap rest
  obtain ⟨ba₃, hreset, h₃⟩ := h₂.setPosition_zero
  refine ⟨ba₃, ?_, by simpa using h₃⟩
  rw [stored, hres]
  change (ba₁.write heap rest >>= fun ba => ba.setPosition 0 >>= fun ba => .ok (ba₁.position, ba)) = _
  rw [hrest, h₁.position_eq]
  change (ba₂.setPosition 0 >>= fun ba => .ok _) = _
  rw [hreset]
  rfl

/-- What a round trip says about the array the result was stored in. -/
theorem RoundTrips.of_stored {base : Nat} {res prior : Result t} {rest : List UInt8} {ba : ByteArray}
    {written : Nat} (h : res.RoundTrips host heap order base prior rest)
    (hstored : res.stored host heap base rest = .ok (written, ba)) :
    ∃ res' ba', prior.read host order ba = .ok (res', ba') ∧ res'.code = res.code ∧
      (res.code = .success → t.Eqv res.val res'.val) ∧ ba'.position = written := by
  obtain ⟨_, _, res', ba', hstored', hread, hcode, -, hval, hposition, -⟩ := h
  cases hstored.symm.trans hstored'
  exact ⟨res', ba', hread, hcode, hval, hposition⟩

section Necessary

variable {base : Nat} {res prior : Result t} {rest : List UInt8}

/-- The code that comes back is the one that was there. -/
theorem RoundTrips.prior_code (h : res.RoundTrips host heap order base prior rest) :
    prior.code = res.code := by
  obtain ⟨_, _, res', _, -, hread, hcode, -⟩ := h
  obtain ⟨_, -, -, hkept⟩ := read_inv hread
  exact hkept.symm.trans hcode

/-- A failure is read past its end. -/
theorem RoundTrips.code_eq (hbase : 0 < base) (hvalid : res.Valid)
    (h : res.RoundTrips host heap order base prior rest) : res.code = .success := by
  by_contra hcode
  obtain ⟨ba, hstored, hba⟩ := stored_spec host heap hbase hvalid rest
  obtain ⟨res', ba', hread, -, -, hposition⟩ := h.of_stored hstored
  obtain ⟨ba₁, hmsg, hval, -⟩ := read_inv hread
  have hencode : res.encode host = stringBytes res.msg := by
    rw [encode, if_neg hcode, List.append_nil]
  rw [hencode] at hba hposition
  obtain ⟨_, _, hmsg', -, hholds⟩ := ByteArray.reads_readStringVint hvalid.msg hba
  cases hmsg.symm.trans hmsg'
  have hmoved := t.advances_read prior.val hval
  rw [hholds.position_eq, hposition, List.nil_append] at hmoved
  exact Nat.not_succ_le_self _ hmoved

/-- The object read from a stored success, by the bytes of its value. -/
theorem RoundTrips.eqv (hbase : 0 < base) (hvalid : res.Valid) (hcode : res.code = .success)
    (h : res.RoundTrips host heap order base prior rest) {P : t.Val → Prop}
    (hval : Reads (t.read host order prior.val) (t.encode host res.val) P) :
    ∃ y, P y ∧ t.Eqv res.val y := by
  obtain ⟨ba, hstored, hba⟩ := stored_spec host heap hbase hvalid rest
  obtain ⟨res', ba', hread, -, heqv, -⟩ := h.of_stored hstored
  rw [encode, if_pos hcode] at hba
  obtain ⟨_, _, hread', ⟨-, -, hP⟩, -⟩ := reads_read hvalid.msg hval hba
  cases hread.symm.trans hread'
  exact ⟨res'.val, hP, heqv hcode⟩

end Necessary

/-- Every message and value comes back just where sender and receiver already agree on success, the
receiving object's containers are empty, and fixed-width scalars survive the host. -/
theorem roundTrips_result_iff (host : ByteOrder) (heap : Heap) (order : HashOrder) (t : Ty)
    (hsupported : t.supported = true) (code : RPCState) (prior : Result t) :
    (∀ base msg val rest, 0 < base → Valid ⟨code, msg, val⟩ →
      RoundTrips host heap order base ⟨code, msg, val⟩ prior rest) ↔
      code = .success ∧ prior.code = .success ∧ t.Fresh prior.val ∧
        (host = .little ∨ t.fixed = false) := by
  constructor
  · intro hall
    have hdefault : Valid (t := t) ⟨code, [], t.defaultVal⟩ :=
      ⟨Nat.two_pow_pos 63, t.valid_defaultVal⟩
    have hsample : Valid (t := t) ⟨code, [], t.sample Scalar.probe⟩ :=
      ⟨Nat.two_pow_pos 63, t.valid_sample Scalar.valid_probe⟩
    have hround := hall 1 [] t.defaultVal [] Nat.one_pos hdefault
    have hcode : code = .success := hround.code_eq Nat.one_pos hdefault
    have hfresh : t.Fresh prior.val := by
      obtain ⟨y, hkept, heqv⟩ :=
        hround.eqv Nat.one_pos hdefault hcode (t.reads_defaultVal prior.val)
      exact hkept heqv
    refine ⟨hcode, hround.prior_code.trans hcode, hfresh, ?_⟩
    by_contra hnot
    rw [not_or, Bool.not_eq_false] at hnot
    cases host with
    | little => exact hnot.1 rfl
    | big =>
        have hround' := hall 1 [] (t.sample Scalar.probe) [] Nat.one_pos hsample
        obtain ⟨_, rfl, heqv⟩ := hround'.eqv Nat.one_pos hsample hcode
          (Ty.reads_sample .big order Scalar.valid_probe hfresh)
        obtain ⟨s, hs, heq⟩ := heqv.eq_of_sample hnot.2
        exact Scalar.probe_ne_received hs heq
  · rintro ⟨rfl, hprior, hfresh, hhost⟩ base msg val rest hbase hvalid
    obtain ⟨ba, hstored, hba⟩ := stored_spec host heap hbase hvalid rest
    have hval : Reads (t.read host order prior.val) (t.encode host val) (t.Eqv val) :=
      Ty.reads_read hsupported hhost hvalid.val hfresh
    obtain ⟨res', ba', hread, ⟨hcode, hmsg, heqv⟩, h'⟩ := reads_read hvalid.msg hval hba
    refine ⟨_, ba, res', ba', hstored, hread, hcode.trans hprior, hmsg, fun _ => heqv, ?_, h'.unread⟩
    rw [h'.position_eq]
    rfl

/-- A success with a list of one string, read into an object that holds a success. -/
theorem roundTrips_result_iff_success :
    RoundTrips (t := .coll .vector (.scalar .string)) .little (fun _ _ => 0) .newestFirst 4096
      ⟨.success, [111, 107], [[97]]⟩ ⟨.success, [120], []⟩ [9] := by
  have hprior : (Ty.coll .vector (.scalar .string)).Fresh [] := rfl
  have hvalid : (Ty.coll .vector (.scalar .string)).Valid [[97]] := by
    refine ⟨by decide, List.forall_mem_singleton.mpr ?_, trivial⟩
    change 1 < 2 ^ 63
    decide
  have hmsg : [(111 : UInt8), 107].length < 2 ^ 63 := by decide
  refine (roundTrips_result_iff .little (fun _ _ => 0) .newestFirst (.coll .vector (.scalar .string))
    (by decide) .success _).mpr ⟨rfl, rfl, hprior, Or.inl rfl⟩ 4096 _ _ [9] (by decide) ?_
  exact ⟨hmsg, hvalid⟩

/-- A failed call with no value, read into an object that holds a success: the code is lost, and the
value that was not written is read. -/
theorem not_roundTrips_fail :
    ¬ RoundTrips (t := .scalar .uint8) .little (fun _ _ => 0) .newestFirst 4096
      ⟨.fail, [], 0#8⟩ ⟨.success, [], 0#8⟩ [] := by
  intro h
  cases h.prior_code

end Result

end AsyncRPC
