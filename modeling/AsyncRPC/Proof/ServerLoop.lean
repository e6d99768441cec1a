import AsyncRPC.Proof.Request
import AsyncRPC.Proof.Subscribe

/-!
# Which frames `RPCServer::handleClient` serves

A reader goes on behind the content of its frame to the end of the nodes, so a handler gets to its end
just if what it reads is there (`Legible`). The name of a method has to be in the content: behind it the
size that is left wraps around.
-/

namespace AsyncRPC

open ServiceRegistry
open AsyncRPC.ByteArray (Holds Inv)

namespace ByteArray

/-- Behind the end of the data the size that is left wraps around, and no string is that long. -/
theorem toString_past {ba : ByteArray} (hpast : ba.size < ba.position)
    (hnear : ba.position ≤ ba.size + 2 ^ 63) (str : List UInt8) : ba.toString ≠ .ok str := by
  intro hrun
  obtain ⟨buf, hresize, -⟩ := Outcome.bind_eq_ok.mp hrun
  have hlong : ¬ ba.getReadableSize < 2 ^ 63 := by
    rw [getReadableSize, Word.subSize, if_neg (Nat.not_le.mpr hpast)]
    omega
  rw [resize, if_neg hlong] at hresize
  cases hresize

theorem setPosition_zero_setSize (ba : ByteArray) (size : Nat) :
    ({ ba with size := size } : ByteArray).setPosition 0
      = (fun ba' => { ba' with size := size }) <$> ba.setPosition 0 := by
  rw [setPosition, setPosition, if_neg (Nat.not_lt_zero _), if_neg (Nat.not_lt_zero _)]
  change (seek ba.chain 0 0 >>= _) = _ <$> (seek ba.chain 0 0 >>= _)
  cases seek ba.chain 0 0 with
  | error fault => rfl
  | ok curr =>
      simp only [bind, Except.bind, Functor.map, Except.map, gt_iff_lt, Nat.not_lt_zero, if_false]

/-- Wherever the cursor is in the nodes, it can be set back to the start of the data. -/
theorem Holds.reset {ba : ByteArray} {size : Nat} {before after : List UInt8}
    (h : Holds { ba with size := size } before after) (hsize : ba.size ≤ size) :
    ∃ ba', ba.setPosition 0 = .ok ba' ∧ Holds ba' [] ((before ++ after).take ba.size) := by
  obtain ⟨full, hrun, hfull⟩ := h.setPosition_zero
  rw [setPosition_zero_setSize] at hrun
  obtain ⟨ba', hreset, rfl⟩ := Outcome.map_eq_ok.mp hrun
  have hkept : ba'.size = ba.size := by
    rw [ByteArray.setPosition, if_neg (Nat.not_lt_zero _)] at hreset
    obtain ⟨curr, -, heq⟩ := Outcome.bind_eq_ok.mp hreset
    cases heq
    rfl
  have hinv := hfull.inv
  have hposition : ba'.position = 0 := hfull.position_eq
  have hle : size ≤ ba'.capacity := hinv.size_le
  refine ⟨ba', hreset, ⟨hinv.base_pos, hinv.head, hinv.uniform, hinv.capacity_eq, ?_, ?_, hinv.curr_eq⟩,
    hposition, ?_⟩
  · rw [hposition]
    exact Nat.zero_le _
  · rw [hkept]
    exact hsize.trans hle
  · have hcontent : ba'.flat.data.take size = before ++ after := hfull.content
    rw [← hcontent, List.take_take, Nat.min_eq_left hsize, hkept, List.nil_append]

end ByteArray

namespace Serializer

theorem memory_eq (heap : Heap) (content : Bytes) : ∃ behind, memory heap content = content ++ behind :=
  ⟨_, rfl⟩

theorem length_memory_le (heap : Heap) (content : Bytes) :
    (memory heap content).length ≤ content.length + 8192 := by
  have hnodes := Nat.div_mul_le_self (0 + content.length - 4096 + 4096 - 1) 4096
  simp only [memory, FlatBuffer.put, FlatBuffer.grow, FlatBuffer.create, Node.alloc, Blocks.overwrite,
    List.length_append, List.length_drop, List.length_take, List.length_map, List.length_range,
    List.length_flatMap, List.map_const', List.sum_replicate_nat]
  omega

/-- The nodes hold the content as data, and the memory whether it is data or not. -/
theorem ofContent_memory (heap : Heap) (content : Bytes) :
    ∃ ba, ofContent heap content = .ok ba ∧ Holds ba [] content ∧
      Holds { ba with size := ba.capacity } [] (memory heap content) := by
  obtain ⟨ba₁, hwrite, h₁, hflat₁⟩ := (holds_create heap).inv.write_spec heap content
  obtain ⟨ba₂, hreset, h₂, hflat₂⟩ := h₁.setPosition_spec (Nat.zero_le ba₁.capacity)
  have hrun : ofContent heap content = .ok ba₂ := by
    rw [ofContent, hwrite]
    exact hreset
  obtain ⟨ba, hba, hholds⟩ := ofContent_spec heap content
  cases hba.symm.trans hrun
  refine ⟨ba₂, hba, hholds, (h₂.spare (n := 0) (h₂.position_le.trans h₂.size_le)).inv,
    hholds.position_eq, ?_⟩
  have hcreate : (create heap).flat = FlatBuffer.create heap 4096 := by
    simp [create, ByteArray.create, ByteArray.flat, FlatBuffer.create]
  have hdata : ba₂.flat.data = memory heap content := by
    rw [hflat₂, hflat₁, hcreate]
    rfl
  change ba₂.flat.data.take ba₂.capacity = _
  rw [← h₂.length_data, List.take_length, hdata, List.nil_append]

end Serializer

section Memory

variable {env : Env} {content : Bytes} {α β : Type} {get : ByteArray → Except Fault (α × ByteArray)}
  {parse : Parser β} {R : β → α → Prop}

/-- A reader of a content gets to its end just if what it needs is in the memory. -/
theorem Follows.ok_iff_memory (hget : Follows get parse R) {ba : ByteArray}
    (hba : Serializer.ofContent env.heap content = .ok ba) :
    (∃ y ba', get ba = .ok (y, ba')) ↔
      ∃ b rest, parse (Serializer.memory env.heap content) = .ok (b, rest) := by
  obtain ⟨ba₁, hba₁, -, hmemory⟩ := Serializer.ofContent_memory env.heap content
  cases hba.symm.trans hba₁
  constructor
  · rintro ⟨y, ba', hrun⟩
    cases hparse : parse (Serializer.memory env.heap content) with
    | ok r => exact ⟨r.1, r.2, rfl⟩
    | error fault => cases hrun.symm.trans (hget.stuck hmemory hparse)
  · rintro ⟨b, rest, hparse⟩
    obtain ⟨y, ba', -, hrun, -⟩ := hget.fits hmemory hparse
    exact ⟨y, ba', hrun⟩

theorem Follows.error_of_memory (hget : Follows get parse R) {ba : ByteArray} {fault : Fault}
    (hba : Serializer.ofContent env.heap content = .ok ba)
    (hparse : parse (Serializer.memory env.heap content) = .error fault) : get ba = .error fault := by
  obtain ⟨ba₁, hba₁, -, hmemory⟩ := Serializer.ofContent_memory env.heap content
  cases hba.symm.trans hba₁
  exact hget.stuck hmemory hparse

/-- What is all there is there in the memory. -/
theorem Follows.ok_memory (hget : Follows get parse R) (env : Env) {b : β} {rest : Bytes}
    (hparse : parse content = .ok (b, rest)) :
    ∃ b' rest', parse (Serializer.memory env.heap content) = .ok (b', rest') := by
  obtain ⟨ba, hba, hholds, -⟩ := Serializer.ofContent_memory env.heap content
  obtain ⟨y, ba', -, hrun, -⟩ := hget.fits_data hholds hparse
  exact (hget.ok_iff_memory hba).mp ⟨y, ba', hrun⟩

end Memory

namespace RpcServer.Server

variable {Conn : Type} {env : Env} {s : Server Conn} {client : Conn} {content : Bytes}
variable {request : Protocol} {requests : List Protocol}

/-- The name of a method is all there, for the handler to get to its end. -/
theorem string_of_unpack {r : Bytes × Bytes} (hrun : unpack env content = .ok r) :
    ∃ funName args, Parser.string content = .ok (funName, args) := by
  obtain ⟨ba, hba, hrest⟩ := Outcome.bind_eq_ok.mp hrun
  obtain ⟨⟨funName, ba'⟩, hname, hrest⟩ := Outcome.bind_eq_ok.mp hrest
  obtain ⟨args, hargs, -⟩ := Outcome.bind_eq_ok.mp hrest
  obtain ⟨ba₁, hba₁, hholds, hmemory⟩ := Serializer.ofContent_memory env.heap content
  cases hba.symm.trans hba₁
  have hfollows : Follows (ByteArray.readStringVint env.host) Parser.string Eq :=
    Follows.readStringVint
  cases hparse : Parser.string content with
  | ok r => exact ⟨r.1, r.2, rfl⟩
  | error fault =>
      -- the reader has left the content, but not the nodes
      have hpast := hfollows.short (n := ba.size) hholds hparse hname
      obtain ⟨b, rest, hreach⟩ := (hfollows.ok_iff_memory hba).mp ⟨funName, ba', hname⟩
      obtain ⟨y, ba₂, used, hname', -, hused, hholds', hsize, -⟩ := hfollows.fits hmemory hreach
      cases hname.symm.trans hname'
      have hposition : ba'.position = used.length := hholds'.position_eq
      have hnear := Serializer.length_memory_le env.heap content
      rw [← hused, List.length_append] at hnear
      rw [hholds.size_eq] at hsize
      rw [List.length_nil, Nat.zero_add] at hpast hsize
      exact absurd hargs (ByteArray.toString_past (by omega) (by omega) args)

/-- The handler of a method call gets to its end just if the name is in the content and nothing but a
string that is too long keeps the arguments from being read. -/
theorem handleMethodCall_isOk (hlength : request.content.length < 2 ^ 63)
    (hreturns : ∀ name m, s.services name = some m → m.Returns env) :
    (∃ r, s.handleMethodCall env request = .ok r) ↔
      ∃ funName args, Parser.string request.content = .ok (funName, args) ∧
        ∀ m fault, s.services funName = some m →
          m.args.skip (Serializer.memory env.heap args) = .error fault → thrown fault := by
  constructor
  · rintro ⟨r, hr⟩
    obtain ⟨names, hnames, hcall⟩ := Outcome.bind_eq_ok.mp hr
    obtain ⟨funName, args, hparse⟩ := string_of_unpack hnames
    obtain ⟨hunpack, -⟩ := unpack_of_string env hparse hlength
    cases hunpack.symm.trans hnames
    obtain ⟨⟨content, invoked⟩, hcontent, -⟩ := Outcome.bind_eq_ok.mp hcall
    refine ⟨funName, args, hparse, fun m fault hservices hfails => ?_⟩
    by_contra hthrown
    obtain ⟨ba, hba, -⟩ := Serializer.ofContent_memory env.heap args
    have hread := (m.skips_args env).error_of_memory hba hfails
    have hproxy : m.proxy env funName args (Serializer.create env.heap) = .error fault := by
      simp only [Method.proxy, hba, hread, bind, Except.bind, if_neg hthrown]
    simp only [call, hservices, hproxy] at hcontent
    cases hcontent
  · rintro ⟨funName, args, hparse, hargs⟩
    apply handleMethodCall_of_call hlength hparse
    cases hservices : s.services funName with
    | none => exact ⟨_, call_none hservices args⟩
    | some m =>
        obtain ⟨ba, hba, -⟩ := Serializer.ofContent_memory env.heap args
        cases hskip : m.args.skip (Serializer.memory env.heap args) with
        | ok r =>
            obtain ⟨received, ba', hread⟩ := ((m.skips_args env).ok_iff_memory hba).mpr ⟨r.1, r.2, hskip⟩
            obtain ⟨-, content, hcontent⟩ := hreturns funName m hservices received
            exact ⟨_, call_read hservices hba hread hcontent⟩
        | error fault =>
            exact call_throws hservices hba ((m.skips_args env).error_of_memory hba hskip)
              (hargs m fault hservices hskip)

/-- The handler of a subscription gets to its end just if the key is in the memory. -/
theorem subscription_isOk (hlength : content.length < 2 ^ 63) :
    (∃ r, subscription env content = .ok r) ↔
      ∃ key rest, Parser.string (Serializer.memory env.heap content) = .ok (key, rest) := by
  obtain ⟨ba, hba, hholds, hmemory⟩ := Serializer.ofContent_memory env.heap content
  have hfollows : Follows (ByteArray.readStringVint env.host) Parser.string Eq :=
    Follows.readStringVint
  constructor
  · rintro ⟨r, hr⟩
    obtain ⟨ba₁, hba₁, hrest⟩ := Outcome.bind_eq_ok.mp hr
    cases hba.symm.trans hba₁
    obtain ⟨⟨key, ba'⟩, hkey, -⟩ := Outcome.bind_eq_ok.mp hrest
    exact (hfollows.ok_iff_memory hba).mp ⟨key, ba', hkey⟩
  · rintro ⟨key, rest, hparse⟩
    obtain ⟨_, ba₁, used, hread, rfl, hused, hholds₁, hsize₁, -⟩ := hfollows.fits hmemory hparse
    have hwithin : ba₁.size ≤ ba.capacity := hsize₁ ▸ hholds.inv.size_le
    obtain ⟨ba₂, hreset, h₂⟩ := hholds₁.reset hwithin
    have hcontent : (([] ++ used) ++ rest).take ba₁.size = content := by
      obtain ⟨behind, hbehind⟩ := Serializer.memory_eq env.heap content
      rw [List.nil_append, hused, hbehind, hsize₁, hholds.size_eq, List.length_nil, Nat.zero_add,
        List.take_left]
    rw [hcontent] at h₂
    obtain ⟨ba₃, hwrite, hstring⟩ := @Subscribe.reply_of_reset env _ _ h₂ hlength
    refine ⟨(key, content.drop 9), Outcome.bind_eq_ok.mpr ⟨ba, hba, ?_⟩⟩
    refine Outcome.bind_eq_ok.mpr ⟨(key, ba₁), hread, ?_⟩
    refine Outcome.bind_eq_ok.mpr ⟨ba₂, hreset, ?_⟩
    refine Outcome.bind_eq_ok.mpr ⟨ba₃, hwrite, ?_⟩
    exact Outcome.bind_eq_ok.mpr ⟨_, hstring, rfl⟩

theorem handled_iff_legible (hlength : request.content.length < 2 ^ 63)
    (hreturns : ∀ name m, s.services name = some m → m.Returns env) :
    Handled env s request ↔ s.Legible env request := by
  cases htype : request.msgType with
  | rpcMethodRequest =>
      simp only [Legible, Handled, htype]
      exact handleMethodCall_isOk hlength hreturns
  | rpcSubscribeRequest =>
      simp only [Legible, Handled, htype]
      exact subscription_isOk hlength
  | _ => simp only [Legible, Handled, htype]

/-- A request that is all there is legible, whatever is behind it. -/
theorem legible_of_wellFormed (env : Env) (htype : request.msgType = .rpcMethodRequest)
    (h : s.WellFormed request.content) : s.Legible env request := by
  obtain ⟨funName, args, hparse, hargs⟩ := h
  simp only [Legible, htype]
  refine ⟨funName, args, hparse, fun m fault hservices hfails => ?_⟩
  obtain ⟨rest, hskip⟩ := hargs m hservices
  obtain ⟨b, rest', hmemory⟩ := (m.skips_args env).ok_memory env hskip
  cases hmemory.symm.trans hfails

theorem legible_of_string (env : Env) (htype : request.msgType = .rpcSubscribeRequest)
    {key rest : Bytes} (hparse : Parser.string request.content = .ok (key, rest)) :
    s.Legible env request := by
  have hfollows : Follows (ByteArray.readStringVint env.host) Parser.string Eq :=
    Follows.readStringVint
  simp only [Legible, htype]
  exact hfollows.ok_memory env hparse

section Examples

open Registry (plainEnv)

/-- A call, a subscription and a heartbeat. -/
def mixed : List Protocol :=
  [Protocol.create .rpcMethodRequest [1, 102, 7], Protocol.create .rpcSubscribeRequest [1, 107],
    Protocol.heartBeat]

end Examples

end RpcServer.Server

end AsyncRPC
