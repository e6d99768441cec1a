import AsyncRPC.Proof.Rpc
import AsyncRPC.Proof.RpcServer
import AsyncRPC.RpcCall

/-!
# Calls from end to end

The request holds the name and the encoding of the arguments, of which the server reads the name and
hands the rest on, so what a call comes to is what reading the encoding gives (`handleMethodCall_read`)
and then what reading the encoding of the value gives (`decode_read`). Both give equal values unless a
fixed-width scalar meets a big-endian host, for which the samples are again the example.
-/

namespace AsyncRPC

open AsyncRPC.ByteArray (Holds Writes Reads stringBytes varint)

section Length

variable (host : ByteOrder)

theorem Scalar.length_encode_probe (s : Scalar) : (s.encode host s.probe).length ≤ 10 := by
  cases s with
  | bool => exact (ByteOrder.length_bytes host 1 _).trans_le (by decide)
  | float => exact (ByteOrder.length_bytes host 4 _).trans_le (by decide)
  | double => exact (ByteOrder.length_bytes host 8 _).trans_le (by decide)
  | int8 => exact (ByteOrder.length_bytes host 1 _).trans_le (by decide)
  | uint8 => exact (ByteOrder.length_bytes host 1 _).trans_le (by decide)
  | int16 => exact (ByteOrder.length_bytes host 2 _).trans_le (by decide)
  | uint16 => exact (ByteOrder.length_bytes host 2 _).trans_le (by decide)
  | int32 => exact ByteArray.length_varint _
  | uint32 => exact ByteArray.length_varint _
  | int64 => exact ByteArray.length_varint _
  | uint64 => exact ByteArray.length_varint _
  | string => exact ByteArray.length_stringBytes []

theorem Ty.length_encode_sample (t : Ty) :
    (t.encode host (t.sample Scalar.probe)).length ≤ 10 * t.nodes := by
  induction t with
  | scalar s => exact s.length_encode_probe host
  | pair first second ihFirst ihSecond =>
      have hlength : ((pair first second).encode host ((pair first second).sample Scalar.probe)).length
          = (first.encode host (first.sample Scalar.probe)).length
            + (second.encode host (second.sample Scalar.probe)).length := List.length_append
      rw [hlength, nodes]
      omega
  | tupleOne t ih => exact ih.trans (Nat.mul_le_mul_left 10 (Nat.le_succ _))
  | tupleSnoc init last ihInit ihLast =>
      have hlength : ((tupleSnoc init last).encode host
          ((tupleSnoc init last).sample Scalar.probe)).length
          = (init.encode host (init.sample Scalar.probe)).length
            + (last.encode host (last.sample Scalar.probe)).length := List.length_append
      rw [hlength, nodes]
      omega
  | coll kind t ih =>
      have hcount := ByteArray.length_varint 1
      have hlength : ((coll kind t).encode host ((coll kind t).sample Scalar.probe)).length
          = (varint 1).length + (t.encode host (t.sample Scalar.probe)).length := by
        simp [encode, sample]
      rw [hlength, nodes]
      omega
  | assoc kind key val ihKey ihVal =>
      have hcount := ByteArray.length_varint 1
      have hlength : ((assoc kind key val).encode host
          ((assoc kind key val).sample Scalar.probe)).length
          = (varint 1).length + ((key.encode host (key.sample Scalar.probe)).length
            + (val.encode host (val.sample Scalar.probe)).length) := by
        simp [encode, sample]
      rw [hlength, nodes]
      omega

end Length

/-- What was made into a string is shorter than the longest one. -/
theorem Serializer.contentOf_length {heap : Heap} {put : ByteArray → Except Fault ByteArray}
    {bytes content : List UInt8} (hput : Writes put bytes) (hrun : contentOf heap put = .ok content) :
    content = bytes ∧ bytes.length < 2 ^ 63 := by
  obtain ⟨ba₁, hwrite, h₁⟩ := hput (holds_create heap)
  obtain ⟨ba₂, hreset, h₂⟩ := h₁.setPosition_zero
  rw [List.nil_append, List.append_nil] at h₂
  refine ⟨contentOf_inv hput hrun, ?_⟩
  rw [contentOf, hwrite] at hrun
  change (ba₁.setPosition 0 >>= fun ba => ba.toString) = _ at hrun
  rw [hreset] at hrun
  change ba₂.toString = _ at hrun
  by_contra hlength
  rw [ByteArray.toString, h₂.inv.getReadableSize_eq, h₂.readable_eq, ByteArray.resize,
    if_neg hlength] at hrun
  cases hrun

namespace RpcServer

open ServiceRegistry RpcCall

variable {Conn : Type} {env : Env} {s : Server Conn} {name content : Bytes} {m : Method}

theorem Method.writes_answer {rt : m.ret.Val} (h : m.ret.Valid rt) :
    Writes ((m.answer rt).write env.host env.heap)
      (stringBytes [] ++ m.ret.encode env.host rt) := by
  have hanswer : (m.answer rt).Valid := ⟨Nat.two_pow_pos 63, h⟩
  exact Result.writes_write hanswer

/-- The response is what `proxy` writes. -/
theorem Server.call_proxy (hservices : s.services name = some m) {args : Bytes}
    {put : ByteArray → Except Fault ByteArray} {invoked : List Invocation}
    (hproxy : ∀ res, put (Serializer.create env.heap) = .ok res →
      m.proxy env name args (Serializer.create env.heap) = .ok (res, invoked))
    (hcontent : Serializer.contentOf env.heap put = .ok content) :
    s.call env name args = .ok (content, invoked) := by
  obtain ⟨res, hwrite, hrest⟩ := Outcome.bind_eq_ok.mp hcontent
  obtain ⟨res', hreset, hstring⟩ := Outcome.bind_eq_ok.mp hrest
  simp only [Server.call, hservices, hproxy res hwrite]
  change (res.setPosition 0 >>= fun res => res.toString >>= fun content => .ok (content, _)) = _
  rw [hreset]
  change (res'.toString >>= fun content => .ok (content, _)) = _
  rw [hstring]
  rfl

/-- Where the arguments can be read, the response is what the function returns. -/
theorem Server.call_read (hservices : s.services name = some m) {args : Bytes} {received : m.args.Val}
    {ba ba' : ByteArray} (hba : Serializer.ofContent env.heap args = .ok ba)
    (hread : m.args.read env.host env.order m.args.defaultVal ba = .ok (received, ba'))
    (hcontent : Serializer.contentOf env.heap
      ((m.answer (m.run received)).write env.host env.heap) = .ok content) :
    s.call env name args = .ok (content, [⟨name, m.args, received⟩]) := by
  refine Server.call_proxy hservices (fun res hwrite => ?_) hcontent
  simp only [Method.proxy, hba, hread, hwrite, bind, Except.bind]

/-- Where reading the arguments throws, the response says so. -/
theorem Server.call_throws (hservices : s.services name = some m) {args : Bytes} {ba : ByteArray}
    {fault : Fault} (hba : Serializer.ofContent env.heap args = .ok ba)
    (hread : m.args.read env.host env.order m.args.defaultVal ba = .error fault)
    (hthrown : thrown fault = true) : ∃ r, s.call env name args = .ok r := by
  have hmsg : (ascii "args not match").length < 2 ^ 63 := by decide
  have hvalid : m.argsNotMatch.Valid := ⟨hmsg, m.ret.valid_defaultVal⟩
  have hlength : (m.argsNotMatch.encode env.host).length < 2 ^ 63 := by
    have hbytes : m.argsNotMatch.encode env.host = stringBytes (ascii "args not match") := by
      simp [Result.encode, Method.argsNotMatch]
    rw [hbytes]
    decide
  have hwrites : Writes (m.argsNotMatch.write env.host env.heap) (m.argsNotMatch.encode env.host) :=
    Result.writes_write hvalid
  have hproxy : ∀ res, m.argsNotMatch.write env.host env.heap (Serializer.create env.heap) = .ok res →
      m.proxy env name args (Serializer.create env.heap) = .ok (res, []) := by
    intro res hwrite
    simp only [Method.proxy, hba, hread, hthrown, hwrite, bind, Except.bind, if_pos]
  exact ⟨_, Server.call_proxy hservices hproxy (Serializer.contentOf_spec hwrites hlength)⟩

theorem Server.call_none (hservices : s.services name = none) (args : Bytes) :
    s.call env name args = .ok ([], []) := by
  simp only [Server.call, hservices]
  rw [(Serializer.holds_create env.heap).toString (Nat.two_pow_pos 63)]
  rfl

theorem Server.unpack_name {args : Bytes} (hname : name.length < 2 ^ 63)
    (hargs : args.length < 2 ^ 63) :
    Server.unpack env (stringBytes name ++ args) = .ok (name, args) := by
  obtain ⟨ba, hba, hholds⟩ := Serializer.ofContent_spec env.heap (stringBytes name ++ args)
  have hreads : Reads (ByteArray.readStringVint env.host) (stringBytes name) (· = name) :=
    ByteArray.reads_readStringVint hname
  obtain ⟨_, ba', hread, rfl, hholds'⟩ := hreads hholds
  rw [Server.unpack, hba]
  change (ba.readStringVint env.host >>= fun r => r.2.toString >>= fun args => .ok (r.1, args)) = _
  rw [hread]
  change (ba'.toString >>= fun args => .ok (_, args)) = _
  rw [hholds'.toString hargs]
  rfl

/-- A request of a registered function, with the bytes of arguments that can be read. -/
theorem Server.handleMethodCall_read (hservices : s.services name = some m) (hreturns : m.Returns env)
    (hname : name.length < 2 ^ 63) {args : Bytes} (hargs : args.length < 2 ^ 63)
    {P : m.args.Val → Prop} (hreads : Reads (m.args.read env.host env.order m.args.defaultVal) args P)
    (req : Protocol) (hreq : req.content = stringBytes name ++ args) :
    ∃ received content, P received ∧ m.ret.Valid (m.run received) ∧
      Serializer.contentOf env.heap ((m.answer (m.run received)).write env.host env.heap)
        = .ok content ∧
      s.handleMethodCall env req
        = .ok ({ Protocol.create .rpcMethodResponse content with sequenceId := req.sequenceId },
            [⟨name, m.args, received⟩]) := by
  obtain ⟨ba, hba, hholds⟩ := Serializer.ofContent_spec env.heap args
  rw [← List.append_nil args] at hholds
  obtain ⟨received, ba', hread, hP, -⟩ := hreads hholds
  obtain ⟨hvalid, content, hcontent⟩ := hreturns received
  refine ⟨received, content, hP, hvalid, hcontent, ?_⟩
  rw [Server.handleMethodCall, hreq, Server.unpack_name hname hargs]
  change (s.call env name args >>= _) = _
  rw [Server.call_read hservices hba hread hcontent]
  rfl

theorem Server.handleMethodCall_none (hservices : s.services name = none) (hname : name.length < 2 ^ 63)
    {args : Bytes} (hargs : args.length < 2 ^ 63) {req : Protocol}
    (hreq : req.content = stringBytes name ++ args) :
    s.handleMethodCall env req
      = .ok ({ Protocol.create .rpcMethodResponse [] with sequenceId := req.sequenceId }, []) := by
  rw [Server.handleMethodCall, hreq, Server.unpack_name hname hargs]
  change (s.call env name args >>= _) = _
  rw [Server.call_none hservices]
  rfl

end RpcServer

namespace RpcCall

open ServiceRegistry RpcServer

variable {Conn : Type} {env : Env} {name content : Bytes} {t ret : Ty}

theorem writes_request {args : t.Val} (hname : (Ty.scalar .string).Valid name) (hargs : t.Valid args) :
    Writes (fun ba => ba.writeStringVint env.heap name >>= t.write env.host env.heap args)
      (stringBytes name ++ t.encode env.host args) :=
  (ByteArray.writes_writeStringVint hname).bind (Ty.writes_write hargs)

theorem request_spec {args : t.Val} (hname : (Ty.scalar .string).Valid name) (hargs : t.Valid args)
    (hlength : (stringBytes name ++ t.encode env.host args).length < 2 ^ 63) (id : BitVec 32) :
    request env name t args id
      = .ok { Protocol.create .rpcMethodRequest (stringBytes name ++ t.encode env.host args) with
          sequenceId := id } :=
  Outcome.bind_eq_ok.mpr ⟨_, Serializer.contentOf_spec (writes_request hname hargs) hlength, rfl⟩

/-- The content of a request that could be built. -/
theorem request_inv {args : t.Val} {id : BitVec 32} {req : Protocol}
    (hname : (Ty.scalar .string).Valid name) (hargs : t.Valid args)
    (h : request env name t args id = .ok req) :
    req.content = stringBytes name ++ t.encode env.host args ∧ name.length < 2 ^ 63 ∧
      (t.encode env.host args).length < 2 ^ 63 := by
  obtain ⟨content, hcontent, h⟩ := Outcome.bind_eq_ok.mp h
  cases h
  obtain ⟨rfl, hlength⟩ := Serializer.contentOf_length (writes_request hname hargs) hcontent
  refine ⟨rfl, hname, ?_⟩
  rw [List.length_append] at hlength
  omega

/-- A response with the result of a function, whose value can be read. -/
theorem decode_read {m : Method} {rt : m.ret.Val} (hvalid : m.ret.Valid rt)
    (hcontent : Serializer.contentOf env.heap ((m.answer rt).write env.host env.heap) = .ok content)
    {P : m.ret.Val → Prop}
    (hreads : Reads (m.ret.read env.host env.order m.ret.defaultVal) (m.ret.encode env.host rt) P)
    (code : RPCState) (response : Protocol) (hresponse : response.content = content) :
    content ≠ [] ∧ ∃ val, decode env m.ret code response = .ok val ∧ P val.val := by
  obtain ⟨rfl, hlength⟩ := Serializer.contentOf_length (Method.writes_answer hvalid) hcontent
  have hne : stringBytes [] ++ m.ret.encode env.host rt ≠ [] :=
    List.append_ne_nil_of_left_ne_nil (by decide) _
  refine ⟨hne, ?_⟩
  obtain ⟨seria, hseria, hholds⟩ :=
    Serializer.ofContent_spec env.heap (stringBytes [] ++ m.ret.encode env.host rt)
  rw [← List.append_nil (stringBytes [] ++ _)] at hholds
  have hmsg : ([] : Bytes).length < 2 ^ 63 := Nat.two_pow_pos 63
  have hresult : Reads (Result.read env.host env.order ⟨code, [], m.ret.defaultVal⟩)
      (stringBytes [] ++ m.ret.encode env.host rt)
      fun res => res.code = code ∧ res.msg = [] ∧ P res.val := Result.reads_read hmsg hreads
  obtain ⟨val, ba, hread, ⟨-, -, hP⟩, -⟩ := hresult hholds
  refine ⟨val, ?_, hP⟩
  rw [decode, hresponse, if_neg (mt List.isEmpty_iff.mp hne)]
  simp only [hseria, bind, Except.bind, hread]

theorem decode_nil {response : Protocol} (hresponse : response.content = []) (code : RPCState) :
    decode env t code response
      = .ok { code := .noMethod, msg := ascii "method not find", val := t.defaultVal } := by
  rw [decode, hresponse]
  rfl

theorem delivers_of_host (s : Server Conn) (run : t.Val → ret.Val)
    (hservices : s.services name = some ⟨t, ret, run⟩) (hreturns : Method.Returns env ⟨t, ret, run⟩)
    (hname : (Ty.scalar .string).Valid name) {args : t.Val} (hargs : t.Valid args)
    (hsupported : t.supported = true ∧ ret.supported = true)
    (hhost : env.host = .little ∨ (t.fixed = false ∧ ret.fixed = false)) :
    Delivers env s name ⟨t, ret, run⟩ args := by
  intro id code req hreq
  obtain ⟨hcontent, hnameLength, hargsLength⟩ := request_inv hname hargs hreq
  have hreads : Reads (t.read env.host env.order t.defaultVal) (t.encode env.host args) (t.Eqv args) :=
    Ty.reads_read hsupported.1 (hhost.imp_right And.left) hargs t.fresh_defaultVal
  obtain ⟨received, content, heqv, hvalid, hbuilt, hcall⟩ :=
    Server.handleMethodCall_read hservices hreturns hnameLength hargsLength hreads req hcontent
  have hreadsRet : Reads (ret.read env.host env.order ret.defaultVal)
      (ret.encode env.host (run received)) (ret.Eqv (run received)) :=
    Ty.reads_read hsupported.2 (hhost.imp_right And.right) hvalid ret.fresh_defaultVal
  obtain ⟨hne, val, hdecode, hval⟩ := decode_read hvalid hbuilt hreadsRet code
    { Protocol.create .rpcMethodResponse content with sequenceId := req.sequenceId } rfl
  exact ⟨_, received, val, hcall, hdecode, heqv, hval, rfl, hne⟩

theorem refuses_of_none (s : Server Conn) (hservices : s.services name = none)
    (hname : (Ty.scalar .string).Valid name) {args : t.Val} (hargs : t.Valid args) :
    Refuses env s name t ret args := by
  intro id code req hreq
  obtain ⟨hcontent, hnameLength, hargsLength⟩ := request_inv hname hargs hreq
  exact ⟨_, _, Server.handleMethodCall_none hservices hnameLength hargsLength hcontent,
    decode_nil rfl code, rfl, rfl, rfl⟩

theorem returns_sample (hsize : ret.nodes < 2 ^ 56) :
    Method.Returns env ⟨t, ret, fun _ => ret.sample Scalar.probe⟩ := by
  have hvalid : ret.Valid (ret.sample Scalar.probe) := ret.valid_sample Scalar.valid_probe
  have hlength := ret.length_encode_sample env.host
  have hlengthMsg := ByteArray.length_stringBytes []
  refine fun _ => ⟨hvalid, _, Serializer.contentOf_spec (Method.writes_answer hvalid) ?_⟩
  simp only [List.length_append, List.length_nil] at hlengthMsg ⊢
  omega

/-- A call in which every fixed-width scalar is the probe arrives as the host receives the probe. -/
theorem eqv_of_delivers (s : Server Conn)
    (hservices : s.services [] = some ⟨t, ret, fun _ => ret.sample Scalar.probe⟩)
    (hsize : t.nodes < 2 ^ 56 ∧ ret.nodes < 2 ^ 56)
    (h : Delivers env s [] ⟨t, ret, fun _ => ret.sample Scalar.probe⟩ (t.sample Scalar.probe)) :
    t.Eqv (t.sample Scalar.probe) (t.sample fun s => s.received env.host s.probe) ∧
      ret.Eqv (ret.sample Scalar.probe) (ret.sample fun s => s.received env.host s.probe) := by
  have hname : (Ty.scalar .string).Valid [] := Nat.two_pow_pos 63
  have hvalidT : t.Valid (t.sample Scalar.probe) := t.valid_sample Scalar.valid_probe
  have hlengthT := t.length_encode_sample env.host
  have hargsLength : (t.encode env.host (t.sample Scalar.probe)).length < 2 ^ 63 := by
    omega
  have hlength : (stringBytes [] ++ t.encode env.host (t.sample Scalar.probe)).length < 2 ^ 63 := by
    have hlengthName := ByteArray.length_stringBytes []
    simp only [List.length_append, List.length_nil] at hlengthName ⊢
    omega
  have hreq : request env [] t (t.sample Scalar.probe) 0 = .ok _ :=
    request_spec hname hvalidT hlength 0
  obtain ⟨response, received, val, hcall, hdecode, heqv, hval, -, -⟩ := h 0 .success _ hreq
  -- the same call by what it reads
  obtain ⟨_, content, rfl, hvalid, hcontent, hcall'⟩ :=
    Server.handleMethodCall_read hservices (returns_sample hsize.2) hname hargsLength
      (Ty.reads_sample env.host env.order Scalar.valid_probe t.fresh_defaultVal)
      { Protocol.create .rpcMethodRequest (stringBytes [] ++ t.encode env.host (t.sample Scalar.probe))
        with sequenceId := 0 } rfl
  cases hcall.symm.trans hcall'
  obtain ⟨-, val', hdecode', hval'⟩ := decode_read hvalid hcontent
    (Ty.reads_sample env.host env.order Scalar.valid_probe ret.fresh_defaultVal) .success
    { Protocol.create .rpcMethodResponse content with sequenceId := 0 } rfl
  cases hdecode.symm.trans hdecode'
  rw [hval'] at hval
  exact ⟨heqv, hval⟩

/-- On a big-endian host some call with a fixed-width scalar goes wrong. -/
theorem not_endToEnd_of_big (hbig : env.host = .big) (hsize : t.nodes < 2 ^ 56 ∧ ret.nodes < 2 ^ 56)
    (hfixed : t.fixed = true ∨ ret.fixed = true) : ¬ EndToEnd env Conn t ret := by
  intro hall
  have hdelivers := (hall
    { services := fun _ => some ⟨t, ret, fun _ => ret.sample Scalar.probe⟩, subscribes := [] } []
    (t.sample Scalar.probe) (Nat.two_pow_pos 63) (t.valid_sample Scalar.valid_probe)).1 _ rfl
    (returns_sample hsize.2)
  obtain ⟨hargs, hval⟩ := eqv_of_delivers _ rfl hsize hdelivers
  rw [hbig] at hargs hval
  rcases hfixed with hfixed | hfixed
  · obtain ⟨s, hs, heq⟩ := hargs.eq_of_sample hfixed
    exact Scalar.probe_ne_received hs heq
  · obtain ⟨s, hs, heq⟩ := hval.eq_of_sample hfixed
    exact Scalar.probe_ne_received hs heq

/-- Calls with these types deliver just where the host is little-endian or nothing in the types has a
fixed width of more than one byte; a name that is not registered is refused in any case. -/
theorem endToEnd_iff (env : Env) (Conn : Type) (t ret : Ty)
    (hsupported : t.supported = true ∧ ret.supported = true)
    (hsize : t.nodes < 2 ^ 56 ∧ ret.nodes < 2 ^ 56) :
    EndToEnd env Conn t ret ↔ env.host = .little ∨ (t.fixed = false ∧ ret.fixed = false) := by
  constructor
  · intro hall
    by_contra hnot
    rw [not_or, not_and_or, Bool.not_eq_false, Bool.not_eq_false] at hnot
    cases hhost : env.host with
    | little => exact hnot.1 hhost
    | big => exact not_endToEnd_of_big hhost hsize hnot.2 hall
  · intro hhost s name args hname hargs
    refine ⟨fun run hservices hreturns => ?_, fun hservices => ?_⟩
    · exact delivers_of_host s run hservices hreturns hname hargs hsupported hhost
    · exact refuses_of_none s hservices hname hargs

section Examples

open Registry (plainEnv)

/-- Functions of a number and a string that give a number. -/
theorem endToEnd_iff_little :
    EndToEnd plainEnv Bool (.tupleSnoc (.tupleOne (.scalar .int16)) (.scalar .string))
      (.scalar .double) :=
  (endToEnd_iff plainEnv Bool _ _ (by decide) (by decide)).mpr (Or.inl rfl)

/-- The `int16_t` 1 as an argument on a big-endian host: the function is invoked on 256. -/
theorem not_endToEnd_big_endian :
    ¬ EndToEnd { plainEnv with host := .big } Bool (.tupleOne (.scalar .int16)) (.scalar .uint8) :=
  not_endToEnd_of_big rfl (by decide) (Or.inl rfl)

end Examples

end RpcCall

end AsyncRPC
