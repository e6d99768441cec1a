import AsyncRPC.Proof.RpcCall
import AsyncRPC.Proof.ServiceRegistry

/-!
# The response to a subscription

Both handlers write their result into the serializer that holds the request and take its content from
where the result ends. What they send is the rest of the request.
-/

namespace AsyncRPC

open Emplace ServiceRegistry
open AsyncRPC.ByteArray (Holds Writes stringBytes varint)

namespace ByteArray

/-- Wherever the cursor is, `put` writes `bytes` over what follows it. -/
def WritesOver (put : ByteArray → Except Fault ByteArray) (bytes : List UInt8) : Prop :=
  ∀ ⦃ba before after⦄, Holds ba before after →
    ∃ ba', put ba = .ok ba' ∧ Holds ba' (before ++ bytes) (after.drop bytes.length)

theorem writesOver_write (heap : Heap) (buf : List UInt8) : WritesOver (fun ba => ba.write heap buf) buf :=
  fun _ _ _ h => h.writeOver heap buf

theorem WritesOver.bind {put next : ByteArray → Except Fault ByteArray} {xs ys : List UInt8}
    (hput : WritesOver put xs) (hnext : WritesOver next ys) :
    WritesOver (fun ba => put ba >>= next) (xs ++ ys) := by
  intro ba before after h
  obtain ⟨ba₁, hrun, h₁⟩ := hput h
  obtain ⟨ba', hrun', h'⟩ := hnext h₁
  refine ⟨ba', ?_, ?_⟩
  · simp only [hrun]
    exact hrun'
  · rwa [List.append_assoc, List.drop_drop, ← List.length_append] at h'

theorem writesOver_writeStringVint (heap : Heap) {value : List UInt8} (h : value.length < 2 ^ 64) :
    WritesOver (writeStringVint heap value) (stringBytes value) := by
  have hsize : WritesOver (writeUint64 heap (BitVec.ofNat 64 value.length)) (varint value.length) := by
    have hnat : (BitVec.ofNat 64 value.length).toNat = value.length := by
      rw [BitVec.toNat_ofNat, Nat.mod_eq_of_lt h]
    have hdigits := digits_varint (BitVec.ofNat 64 value.length).isLt
    intro ba before after hba
    rw [writeUint64, varintLoop_eq (by decide) hdigits, hnat]
    exact hba.writeOver heap _
  exact hsize.bind (writesOver_write heap value)

theorem varint_of_lt {n : Nat} (h : n < 0x80) : varint n = [UInt8.ofNat n] := by
  rw [varint, Radix.digits, if_neg (Nat.not_le.mpr h), Option.getD_some]

end ByteArray

namespace Subscribe

/-- The bytes of a `Result<>::Success()`: the message with its length, and whatever `val_` holds. -/
def successBytes (val : UInt8) : Bytes := 7 :: ascii "success" ++ [val]

/-- The content is the serialization of a `Result<>::Success()`. -/
def IsSuccess (env : Env) (content : Bytes) : Prop :=
  ∃ val : BitVec 8, Serializer.contentOf env.heap
    ((Result.success val : Result (.scalar .uint8)).write env.host env.heap) = .ok content

/-- The handler answers, and with just that. -/
def AnswersSuccess {ε σ : Type} (env : Env) (run : Except ε (Protocol × σ)) : Prop :=
  ∃ response s, run = .ok (response, s) ∧ response.msgType = .rpcSubscribeResponse ∧
    IsSuccess env response.content

/-- The key itself ends with such bytes, where the handler starts to read them. -/
def Mimics (key : Bytes) : Prop :=
  ∃ front val, front.length = 8 ∧ key = front ++ successBytes val

variable {env : Env} {Conn : Type}

theorem encode_success (host : ByteOrder) (val : BitVec 8) :
    (Result.success val : Result (.scalar .uint8)).encode host
      = successBytes (UInt8.ofBitVec val) := by
  have hmsg : stringBytes (ascii "success") = 7 :: ascii "success" := by decide
  have hval : (Ty.scalar .uint8).encode host val = [UInt8.ofBitVec val] := host.bytes_one val
  change stringBytes (ascii "success") ++ (Ty.scalar .uint8).encode host val = _
  rw [hmsg, hval]
  rfl

theorem writesOver_success (host : ByteOrder) (heap : Heap) (val : BitVec 8) :
    ByteArray.WritesOver ((Result.success val : Result (.scalar .uint8)).write host heap)
      (successBytes (UInt8.ofBitVec val)) := by
  rw [← encode_success host val]
  have hlength : (ascii "success").length < 2 ^ 64 := by decide
  have hmsg := ByteArray.writesOver_writeStringVint heap hlength
  have hval : ByteArray.WritesOver ((Ty.scalar .uint8).write host heap val)
      ((Ty.scalar .uint8).encode host val) := ByteArray.writesOver_write heap _
  exact hmsg.bind hval

theorem length_successBytes (val : UInt8) : (successBytes val).length = 9 := rfl

theorem isSuccess_iff {content : Bytes} : IsSuccess env content ↔ ∃ val, content = successBytes val := by
  have hwrites : ∀ val : BitVec 8, Serializer.contentOf env.heap
      ((Result.success val : Result (.scalar .uint8)).write env.host env.heap)
        = .ok (successBytes (UInt8.ofBitVec val)) := by
    intro val
    rw [← encode_success env.host val]
    have hmsg : (ascii "success").length < 2 ^ 63 := by decide
    refine Serializer.contentOf_spec (Result.writes_write ⟨hmsg, trivial⟩) ?_
    rw [encode_success, length_successBytes]
    decide
  constructor
  · rintro ⟨val, hcontent⟩
    rw [hwrites val] at hcontent
    exact ⟨_, (Except.ok.inj hcontent).symm⟩
  · rintro ⟨val, rfl⟩
    exact ⟨val.toBitVec, hwrites val.toBitVec⟩

/-- A key that was serialized was short enough for it. -/
theorem content_eq {key content : Bytes}
    (hcontent : Serializer.contentOf env.heap (Scalar.string.write env.host env.heap key) = .ok content) :
    content = stringBytes key ∧ (stringBytes key).length < 2 ^ 63 := by
  have hwrites : Writes (ByteArray.writeStringVint env.heap key)
      (varint (BitVec.ofNat 64 key.length).toNat ++ key) :=
    (ByteArray.writes_writeUint64 _).bind (ByteArray.writes_write env.heap key)
  obtain ⟨rfl, hlength⟩ := Serializer.contentOf_length hwrites hcontent
  have hkey : key.length < 2 ^ 64 := by
    rw [List.length_append] at hlength
    omega
  rw [BitVec.toNat_ofNat, Nat.mod_eq_of_lt hkey] at hlength ⊢
  exact ⟨rfl, hlength⟩

/-- What both handlers write over the request leaves the cursor behind the result, with the rest of the
request to come. -/
theorem reply_of_reset {ba₂ : ByteArray} {content : Bytes} (h₂ : Holds ba₂ [] content)
    (hlength : content.length < 2 ^ 63) :
    ∃ ba₃, (Result.success env.unset : Result (.scalar .uint8)).write env.host env.heap ba₂ = .ok ba₃ ∧
      ba₃.toString = .ok (content.drop 9) := by
  obtain ⟨ba₃, hwrite, h₃⟩ := writesOver_success env.host env.heap env.unset h₂
  refine ⟨ba₃, hwrite, ?_⟩
  rw [length_successBytes] at h₃
  apply h₃.toString
  rw [List.length_drop]
  omega

/-- What both handlers do to the serializer once the key is read. -/
theorem reply_of_holds {ba₁ : ByteArray} {before after : Bytes} (h₁ : Holds ba₁ before after)
    (hlength : (before ++ after).length < 2 ^ 63) :
    ∃ ba₂ ba₃, ba₁.setPosition 0 = .ok ba₂ ∧
      (Result.success env.unset : Result (.scalar .uint8)).write env.host env.heap ba₂ = .ok ba₃ ∧
      ba₃.toString = .ok ((before ++ after).drop 9) := by
  obtain ⟨ba₂, hreset, h₂⟩ := h₁.setPosition_zero
  obtain ⟨ba₃, hwrite, hstring⟩ := @reply_of_reset env _ _ h₂ hlength
  exact ⟨ba₂, ba₃, hreset, hwrite, hstring⟩

theorem reply_spec {key content : Bytes}
    (hcontent : Serializer.contentOf env.heap (Scalar.string.write env.host env.heap key) = .ok content) :
    ∃ ba ba₁ ba₂ ba₃, Serializer.ofContent env.heap content = .ok ba ∧
      Scalar.string.read env.host ba = .ok (key, ba₁) ∧ ba₁.setPosition 0 = .ok ba₂ ∧
      (Result.success env.unset : Result (.scalar .uint8)).write env.host env.heap ba₂ = .ok ba₃ ∧
      ba₃.toString = .ok ((stringBytes key).drop 9) := by
  obtain ⟨rfl, hlength⟩ := content_eq hcontent
  have hkey : key.length < 2 ^ 63 := by
    rw [stringBytes, List.length_append] at hlength
    omega
  have hreads : ByteArray.Reads (Scalar.string.read env.host) (stringBytes key) (· = key) :=
    ByteArray.reads_readStringVint hkey
  obtain ⟨ba, hba, h⟩ := Serializer.ofContent_spec env.heap (stringBytes key)
  rw [← List.append_nil (stringBytes key)] at h
  obtain ⟨read, ba₁, hread, hreadEq, h₁⟩ := hreads h
  rw [hreadEq] at hread
  rw [List.nil_append] at h₁
  obtain ⟨ba₂, ba₃, hreset, hwrite, hstring⟩ :=
    reply_of_holds h₁ (by rwa [List.append_nil])
  rw [List.append_nil] at hstring
  exact ⟨ba, ba₁, ba₂, ba₃, hba, hread, hreset, hwrite, hstring⟩

/-- The rest of the request is a result just if the key makes it one. -/
theorem isSuccess_rest_iff {key : Bytes} :
    IsSuccess env ((stringBytes key).drop 9) ↔ Mimics key := by
  rw [isSuccess_iff]
  constructor
  · rintro ⟨val, hrest⟩
    have hlength : (stringBytes key).length = 18 := by
      have hdrop := congrArg List.length hrest
      rw [List.length_drop, length_successBytes] at hdrop
      omega
    have hsmall : key.length < 0x80 := by
      rw [stringBytes, List.length_append] at hlength
      omega
    rw [stringBytes, ByteArray.varint_of_lt hsmall] at hrest hlength
    rw [List.length_append, List.length_singleton] at hlength
    refine ⟨key.take 8, val, by rw [List.length_take]; omega, ?_⟩
    rw [← hrest]
    exact (List.take_append_drop 8 key).symm
  · rintro ⟨front, val, hfront, rfl⟩
    have hlength : (front ++ successBytes val).length = 17 := by
      rw [List.length_append, hfront, length_successBytes]
    refine ⟨val, ?_⟩
    rw [stringBytes, ByteArray.varint_of_lt (by omega)]
    exact List.drop_left' hfront

/-- A handler that answers is right just if the content of its response is. -/
theorem answersSuccess_iff {ε σ : Type} {response : Protocol} {s : σ}
    (htype : response.msgType = .rpcSubscribeResponse) :
    AnswersSuccess env (.ok (response, s) : Except ε (Protocol × σ)) ↔ IsSuccess env response.content := by
  constructor
  · rintro ⟨_, _, hok, -, hsuccess⟩
    cases hok
    exact hsuccess
  · exact fun hsuccess => ⟨response, s, rfl, htype, hsuccess⟩

theorem server_answers_iff (s : RpcServer.Server Conn) (client : Conn) {key : Bytes} {request : Protocol}
    (hcontent : Serializer.contentOf env.heap (Scalar.string.write env.host env.heap key)
      = .ok request.content) :
    AnswersSuccess env (s.handleSubscribe env request client) ↔ Mimics key := by
  obtain ⟨ba, ba₁, ba₂, ba₃, hba, hread, hreset, hwrite, hstring⟩ := reply_spec hcontent
  have hrun : RpcServer.Server.subscription env request.content
      = .ok (key, (stringBytes key).drop 9) := by
    refine Outcome.bind_eq_ok.mpr ⟨ba, hba, ?_⟩
    refine Outcome.bind_eq_ok.mpr ⟨(key, ba₁), hread, ?_⟩
    refine Outcome.bind_eq_ok.mpr ⟨ba₂, hreset, ?_⟩
    refine Outcome.bind_eq_ok.mpr ⟨ba₃, hwrite, ?_⟩
    exact Outcome.bind_eq_ok.mpr ⟨_, hstring, rfl⟩
  have hhandle : s.handleSubscribe env request client
      = .ok ({ Protocol.create .rpcSubscribeResponse ((stringBytes key).drop 9) with
          sequenceId := request.sequenceId }, s.emplace env key client) := by
    rw [RpcServer.Server.handleSubscribe, hrun]
    rfl
  rw [hhandle]
  exact (answersSuccess_iff rfl).trans isSuccess_rest_iff

theorem registry_answers_iff [DecidableEq Conn] (r : Registry Conn) (c : Conn) {key : Bytes}
    {request : Protocol}
    (hcontent : Serializer.contentOf env.heap (Scalar.string.write env.host env.heap key)
      = .ok request.content) :
    AnswersSuccess env (r.handleSubscribe env c request) ↔ Mimics key := by
  obtain ⟨ba, ba₁, ba₂, ba₃, hba, hread, hreset, hwrite, hstring⟩ := reply_spec hcontent
  have hhandle : r.handleSubscribe env c request
      = .ok (Protocol.create .rpcSubscribeResponse ((stringBytes key).drop 9),
          { r with subscribe := env.order.place r.subscribe.length (key, c) r.subscribe }) := by
    refine Outcome.bind_eq_ok.mpr ⟨ba, congrArg uncaught hba, ?_⟩
    refine Outcome.bind_eq_ok.mpr ⟨(key, ba₁), congrArg uncaught hread, ?_⟩
    refine Outcome.bind_eq_ok.mpr ⟨ba₂, congrArg uncaught hreset, ?_⟩
    refine Outcome.bind_eq_ok.mpr ⟨ba₃, congrArg uncaught hwrite, ?_⟩
    exact Outcome.bind_eq_ok.mpr ⟨_, congrArg uncaught hstring, rfl⟩
  rw [hhandle]
  exact (answersSuccess_iff rfl).trans isSuccess_rest_iff

/-- Either handler answers a subscription to a key with the result and nothing else just if the key is
eight bytes in front of the bytes of such a result. -/
theorem subscribe_answers_iff [DecidableEq Conn] (s : RpcServer.Server Conn) (r : Registry Conn)
    (client : Conn) {key : Bytes} {request : Protocol}
    (hcontent : Serializer.contentOf env.heap (Scalar.string.write env.host env.heap key)
      = .ok request.content) :
    (AnswersSuccess env (s.handleSubscribe env request client) ↔ Mimics key) ∧
      (AnswersSuccess env (r.handleSubscribe env client request) ↔ Mimics key) :=
  ⟨server_answers_iff s client hcontent, registry_answers_iff r client hcontent⟩

section Examples

open Registry (plainEnv)

def subscribeTo (key : Bytes) : Protocol := Protocol.create .rpcSubscribeRequest (stringBytes key)

theorem content_subscribeTo {key : Bytes} (h : key.length < 2 ^ 32) :
    Serializer.contentOf plainEnv.heap (Scalar.string.write plainEnv.host plainEnv.heap key)
      = .ok (subscribeTo key).content := by
  have hlength : (stringBytes key).length < 2 ^ 63 := by
    have hbegins := ByteArray.length_stringBytes key
    omega
  exact Serializer.contentOf_spec (ByteArray.writes_writeStringVint (by omega)) hlength

def noServices : RpcServer.Server Bool := { services := fun _ => none, subscribes := [] }

/-- The one kind of key for which it works. -/
theorem subscribe_answers_iff_mimic :
    AnswersSuccess plainEnv
        (noServices.handleSubscribe plainEnv (subscribeTo (ascii "12345678" ++ successBytes 0)) true) ∧
      AnswersSuccess plainEnv ((Registry.init : Registry Bool).handleSubscribe plainEnv true
        (subscribeTo (ascii "12345678" ++ successBytes 0))) := by
  have hmimics : Mimics (ascii "12345678" ++ successBytes 0) := ⟨_, 0, by decide, rfl⟩
  have hiff := subscribe_answers_iff noServices (Registry.init : Registry Bool) true
    (content_subscribeTo (by decide : (ascii "12345678" ++ successBytes 0).length < 2 ^ 32))
  exact ⟨hiff.1.mpr hmimics, hiff.2.mpr hmimics⟩

/-- The key under which a pool subscribes to a service. -/
def poolKey : Bytes := rpcServiceSubscribe ++ ascii "add"

theorem not_subscribe_answers_poolKey :
    Serializer.contentOf plainEnv.heap (Scalar.string.write plainEnv.host plainEnv.heap poolKey)
        = .ok (subscribeTo poolKey).content ∧
      ¬ AnswersSuccess plainEnv (noServices.handleSubscribe plainEnv (subscribeTo poolKey) true) ∧
      ¬ AnswersSuccess plainEnv
        ((Registry.init : Registry Bool).handleSubscribe plainEnv true (subscribeTo poolKey)) := by
  have hcontent := content_subscribeTo (by decide : poolKey.length < 2 ^ 32)
  have hlength : poolKey.length = 28 := by decide
  have hother : ¬ Mimics poolKey := by
    rintro ⟨front, val, hfront, hkey⟩
    rw [hkey, List.length_append, hfront, length_successBytes] at hlength
    cases hlength
  exact ⟨hcontent, fun h => hother ((server_answers_iff noServices true hcontent).mp h),
    fun h => hother ((registry_answers_iff Registry.init true hcontent).mp h)⟩

end Examples

end Subscribe

end AsyncRPC
