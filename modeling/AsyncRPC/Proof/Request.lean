import AsyncRPC.Proof.RpcCall
import AsyncRPC.Request

/-!
# Requests that are too short

Each reader follows the parser of its bytes (`Follows`): where the parser gets through, the reader
stops where the parser does. Where there are too few bytes, the reader does not notice but goes on past
the end of the data, and fails at the end of the nodes. So a request is handled as it should be just if it
is all there.
-/

namespace AsyncRPC

open Emplace Radix
open AsyncRPC.ByteArray (Holds Inv Advances)

namespace ByteArray

/-- A read moves the cursor and nothing else. -/
theorem read_frame {ba ba' : ByteArray} {n : Nat} {bytes : List UInt8} (h : ba.read n = .ok (bytes, ba')) :
    ba'.size = ba.size ∧ ba'.capacity = ba.capacity := by
  rw [read] at h
  split at h
  · cases h
    exact ⟨rfl, rfl⟩
  · obtain ⟨⟨out, curr⟩, -, hrest⟩ := Outcome.bind_eq_ok.mp h
    cases hrest
    exact ⟨rfl, rfl⟩

/-- More than is left in the nodes is not read. -/
theorem read_short {ba : ByteArray} {n : Nat} (h : Inv { ba with size := ba.capacity })
    (hmore : ba.capacity < ba.position + n) : ba.read n = .error .nullNode := by
  have hposition : ba.position ≤ ba.capacity := h.position_le
  have hn : ¬ n ≤ 0 := by omega
  rw [read, if_neg hn]
  refine Outcome.bind_eq_error.mpr (Or.inl ?_)
  rcases Nat.lt_or_ge ba.position ba.capacity with hbefore | hend
  · obtain ⟨hcurr, hderef⟩ := h.deref_curr hbefore
    have hcapacity : ba.capacity = ba.baseSize * ba.nodes.length := h.capacity_eq
    have hplace := cursor_place ba
    have hshort : ba.nodes.length * ba.baseSize
        < ba.position / ba.baseSize * ba.baseSize + ba.position % ba.baseSize + n := by
      rw [hplace, Nat.mul_comm, ← hcapacity]
      exact hmore
    have hchain : ba.chain = List.replicate ba.nodes.length ba.baseSize := h.chain_eq
    have hnode : ba.deref ba.curr = .ok (ba.position / ba.baseSize, ba.baseSize) := hderef
    rw [chunks, hnode, hchain]
    exact chunkLoop_short _ _ _ _ _ 0 n (Nat.mod_lt _ h.base_pos) hcurr hshort
  · have hcurr : ba.curr = none := by
      have hseat := h.curr_eq
      rwa [if_pos (Nat.le_antisymm hposition hend)] at hseat
    rw [chunks, hcurr]
    rfl

end ByteArray

/-- The reader `get` takes the bytes that `parse` takes, to a value that `R` relates to the parsed one,
whether they are data or not. Where `parse` fails, it ends behind the last byte if it ends, and if there are
no more nodes it fails likewise. -/
structure Follows {α β : Type} (get : ByteArray → Except Fault (α × ByteArray)) (parse : Parser β)
    (R : β → α → Prop) : Prop where
  fits : ∀ ⦃ba n before bytes b rest⦄, Holds { ba with size := n } before bytes →
    parse bytes = .ok (b, rest) →
      ∃ y ba' used, get ba = .ok (y, ba') ∧ R b y ∧ used ++ rest = bytes ∧
        Holds { ba' with size := n } (before ++ used) rest ∧ ba'.size = ba.size ∧
          ba'.capacity = ba.capacity
  short : ∀ ⦃ba n before bytes fault⦄, Holds { ba with size := n } before bytes →
    parse bytes = .error fault →
      ∀ ⦃y ba'⦄, get ba = .ok (y, ba') → before.length + bytes.length < ba'.position
  stuck : ∀ ⦃ba before bytes fault⦄, Holds { ba with size := ba.capacity } before bytes →
    parse bytes = .error fault → get ba = .error fault

/-- `Follows`, whatever is read. -/
def Skips {α : Type} (get : ByteArray → Except Fault (α × ByteArray)) (skip : Parser Unit) : Prop :=
  Follows get skip fun _ _ => True

namespace Follows

variable {α β γ δ : Type} {host : ByteOrder}

/-- Reading data. -/
theorem fits_data {get : ByteArray → Except Fault (α × ByteArray)} {parse : Parser β} {R : β → α → Prop}
    (h : Follows get parse R) {ba : ByteArray} {before bytes rest : List UInt8} {b : β}
    (hba : Holds ba before bytes) (hparse : parse bytes = .ok (b, rest)) :
    ∃ y ba' used, get ba = .ok (y, ba') ∧ R b y ∧ used ++ rest = bytes ∧
      Holds ba' (before ++ used) rest := by
  obtain ⟨y, ba', used, hrun, hR, hused, hba', hsize, -⟩ := h.fits (n := ba.size) hba hparse
  rw [← hsize] at hba'
  exact ⟨y, ba', used, hrun, hR, hused, hba'⟩

theorem ok (f : ByteArray → α) (b : β) {R : β → α → Prop} (hR : ∀ ba, R b (f ba)) :
    Follows (fun ba => .ok (f ba, ba)) (pure b) R := by
  refine ⟨?_, ?_, ?_⟩
  · intro ba n before bytes b' rest hba hparse
    cases hparse
    exact ⟨f ba, ba, [], rfl, hR ba, rfl, by simpa using hba, rfl, rfl⟩
  · intro ba n before bytes fault _ hparse
    cases hparse
  · intro ba before bytes fault _ hparse
    cases hparse

theorem bind {get : ByteArray → Except Fault (α × ByteArray)} {parse : Parser β} {R : β → α → Prop}
    {next : α → ByteArray → Except Fault (γ × ByteArray)} {parse' : β → Parser δ}
    {S : δ → γ → Prop} (hget : Follows get parse R)
    (hnext : ∀ b y, R b y → Follows (next y) (parse' b) S) (hmoves : ∀ y, Advances 0 (next y)) :
    Follows (fun ba => get ba >>= fun r => next r.1 r.2) (parse >>= parse') S := by
  refine ⟨?_, ?_, ?_⟩
  · intro ba n before bytes d rest hba hparse
    obtain ⟨⟨b, mid⟩, hparse₁, hparse₂⟩ := Outcome.bind_eq_ok.mp hparse
    obtain ⟨y, ba₁, used, hrun, hR, hused, hba₁, hsize₁, hcapacity₁⟩ := hget.fits hba hparse₁
    obtain ⟨z, ba', used', hrun', hS, hused', hba', hsize', hcapacity'⟩ := (hnext b y hR).fits hba₁ hparse₂
    refine ⟨z, ba', used ++ used', ?_, hS, ?_, ?_, hsize'.trans hsize₁, hcapacity'.trans hcapacity₁⟩
    · simp only [hrun]
      exact hrun'
    · rw [List.append_assoc, hused', hused]
    · rw [← List.append_assoc]
      exact hba'
  · intro ba n before bytes fault hba hparse z ba' hrun
    obtain ⟨⟨y, ba₁⟩, hrun₁, hrun₂⟩ := Outcome.bind_eq_ok.mp hrun
    rcases Outcome.bind_eq_error.mp hparse with hfirst | ⟨⟨b, mid⟩, hfirst, hsecond⟩
    · have hpast := hget.short hba hfirst hrun₁
      have hmoved := hmoves y hrun₂
      exact Nat.lt_of_lt_of_le hpast hmoved
    · obtain ⟨y', ba₁', used, hrun₁', hR, hused, hba₁, -⟩ := hget.fits hba hfirst
      cases hrun₁.symm.trans hrun₁'
      have hpast := (hnext b y hR).short hba₁ hsecond hrun₂
      rwa [List.length_append, Nat.add_assoc, ← List.length_append, hused] at hpast
  · intro ba before bytes fault hba hparse
    refine Outcome.bind_eq_error.mpr ?_
    rcases Outcome.bind_eq_error.mp hparse with hfirst | ⟨⟨b, mid⟩, hfirst, hsecond⟩
    · exact Or.inl (hget.stuck hba hfirst)
    · obtain ⟨y, ba₁, used, hrun, hR, -, hba₁, -, hcapacity⟩ := hget.fits hba hfirst
      rw [← hcapacity] at hba₁
      exact Or.inr ⟨(y, ba₁), hrun, (hnext b y hR).stuck hba₁ hsecond⟩

theorem map {get : ByteArray → Except Fault (α × ByteArray)} {parse : Parser β} {R : β → α → Prop}
    {S : β → γ → Prop} (hget : Follows get parse R) (f : α → ByteArray → γ)
    (hS : ∀ b y ba, R b y → S b (f y ba)) :
    Follows (fun ba => get ba >>= fun r => .ok (f r.1 r.2, r.2)) parse S := by
  have hnext : ∀ b y, R b y → Follows (fun ba => .ok (f y ba, ba)) (pure b) S :=
    fun b y hR => ok (f y) b fun ba => hS b y ba hR
  have hbind := hget.bind hnext fun y => ByteArray.advances_ok (f y)
  rwa [bind_pure] at hbind

theorem discard {get : ByteArray → Except Fault (α × ByteArray)} {parse : Parser β}
    {R : β → α → Prop} (h : Follows get parse R) : Skips get (parse >>= fun _ => pure ()) := by
  have hfails : ∀ {bytes fault}, (parse >>= fun _ => pure ()) bytes = .error fault →
      parse bytes = .error fault := by
    intro bytes fault hparse
    rcases Outcome.bind_eq_error.mp hparse with hfirst | ⟨r, -, hsecond⟩
    · exact hfirst
    · cases hsecond
  refine ⟨?_, fun ba n before bytes fault hba hparse => h.short hba (hfails hparse),
    fun ba before bytes fault hba hparse => h.stuck hba (hfails hparse)⟩
  intro ba n before bytes _ rest hba hparse
  obtain ⟨⟨b, mid⟩, hparse₁, hparse₂⟩ := Outcome.bind_eq_ok.mp hparse
  cases hparse₂
  obtain ⟨y, ba', used, hrun, -, hmore⟩ := h.fits hba hparse₁
  exact ⟨y, ba', used, hrun, trivial, hmore⟩

theorem read (n : Nat) : Follows (fun ba => ba.read n) (Parser.take n) Eq := by
  have hfails : ∀ {bytes fault}, Parser.take n bytes = .error fault →
      bytes.length < n ∧ fault = .nullNode := by
    intro bytes fault hparse
    rw [Parser.take] at hparse
    split at hparse
    · cases hparse
    · next hmore =>
      cases hparse
      exact ⟨Nat.lt_of_not_le hmore, rfl⟩
  refine ⟨?_, ?_, ?_⟩
  · intro ba size before bytes bs rest hba hparse
    rw [Parser.take] at hparse
    split at hparse
    · next hle =>
      cases hparse
      rw [← List.take_append_drop n bytes] at hba
      obtain ⟨full, hrun, hfull⟩ := hba.read
      rw [List.length_take, Nat.min_eq_left hle, ByteArray.read_setSize] at hrun
      obtain ⟨⟨out, ba'⟩, hread, heq⟩ := Outcome.map_eq_ok.mp hrun
      obtain ⟨rfl, rfl⟩ := Prod.mk.inj heq
      obtain ⟨hsize, hcapacity⟩ := ByteArray.read_frame hread
      exact ⟨_, ba', _, hread, rfl, List.take_append_drop n bytes, hfull, hsize, hcapacity⟩
    · cases hparse
  · intro ba size before bytes fault hba hparse bs ba' hrun
    have hposition : ba.position = before.length := hba.position_eq
    rw [ByteArray.position_read hrun, hposition]
    exact Nat.add_lt_add_left (hfails hparse).1 _
  · intro ba before bytes fault hba hparse
    obtain ⟨hmore, rfl⟩ := hfails hparse
    apply ByteArray.read_short hba.inv
    have hcapacity : ba.capacity = before.length + bytes.length := hba.size_eq
    have hposition : ba.position = before.length := hba.position_eq
    rw [hcapacity, hposition]
    exact Nat.add_lt_add_left hmore _

theorem readVarintLoop_cons (host : ByteOrder) {w : Nat} {ba : ByteArray} {n : Nat}
    {before bytes : List UInt8} {b : UInt8} (hba : Holds { ba with size := n } before (b :: bytes))
    (rounds i : Nat) (acc : BitVec w) :
    ∃ ba', Holds { ba' with size := n } (before ++ [b]) bytes ∧ ba'.size = ba.size ∧
      ba'.capacity = ba.capacity ∧ ByteArray.readVarintLoop host (rounds + 1) i acc ba
        = if b.toBitVec < 0x80#8 then .ok (acc ||| (b.toBitVec.setWidth w <<< i), ba')
          else ByteArray.readVarintLoop host rounds (i + 7)
            (acc ||| ((b.toBitVec &&& 0x7F#8).setWidth w <<< i)) ba' := by
  have htake : Parser.take 1 (b :: bytes) = .ok ([b], bytes) := rfl
  obtain ⟨_, ba', used, hread, rfl, hused, hba', hsize, hcapacity⟩ := (read 1).fits hba htake
  obtain rfl : used = [b] := List.append_cancel_right hused
  refine ⟨ba', hba', hsize, hcapacity, ?_⟩
  have hbyte : ByteArray.readByte host ba = .ok (b.toBitVec, ba') := by
    rw [ByteArray.readByte, hread]
    change Except.ok (BitVec.ofNat 8 (host.value [b]), ba') = _
    rw [ByteOrder.value_singleton]
    exact congrArg (fun t => Except.ok (t, ba')) (BitVec.ofNat_toNat 8 b.toBitVec)
  rw [ByteArray.readVarintLoop, ByteArray.readFuint8, hbyte]
  rfl

theorem readVarintLoop {w : Nat} (rounds i : Nat) (acc : BitVec w) :
    Follows (ByteArray.readVarintLoop host rounds i acc) (Parser.varint rounds i acc) Eq := by
  induction rounds generalizing i acc with
  | zero => exact ok (fun _ => acc) acc fun _ => rfl
  | succ rounds ih =>
      refine ⟨?_, ?_, ?_⟩
      · intro ba n before bytes value rest hba hparse
        cases bytes with
        | nil => cases hparse
        | cons b bytes =>
            obtain ⟨ba₁, hba₁, hsize₁, hcapacity₁, hround⟩ := readVarintLoop_cons host hba rounds i acc
            rw [hround]
            simp only [Parser.varint] at hparse
            split at hparse
            · next hlast =>
              cases hparse
              exact ⟨_, ba₁, [b], if_pos hlast, rfl, rfl, hba₁, hsize₁, hcapacity₁⟩
            · next hmore =>
              obtain ⟨y, ba', used, hrun, hy, hused, hba', hsize', hcapacity'⟩ :=
                (ih _ _).fits hba₁ hparse
              refine ⟨y, ba', b :: used, (if_neg hmore).trans hrun, hy, ?_, ?_, hsize'.trans hsize₁,
                hcapacity'.trans hcapacity₁⟩
              · rw [List.cons_append, hused]
              · rwa [List.append_assoc, List.singleton_append] at hba'
      · intro ba n before bytes fault hba hparse y ba' hrun
        cases bytes with
        | nil =>
            have hmoved := ByteArray.advances_readVarintLoop (rounds + 1) i acc hrun
            have hposition : ba.position = before.length := hba.position_eq
            rw [hposition, Nat.min_eq_right (Nat.le_add_left 1 rounds)] at hmoved
            exact hmoved
        | cons b bytes =>
            obtain ⟨ba₁, hba₁, -, -, hround⟩ := readVarintLoop_cons host hba rounds i acc
            rw [hround] at hrun
            simp only [Parser.varint] at hparse
            split at hparse
            · cases hparse
            · next hmore =>
              rw [if_neg hmore] at hrun
              have hpast := (ih _ _).short hba₁ hparse hrun
              rwa [List.length_append, Nat.add_assoc, List.length_singleton,
                Nat.add_comm 1] at hpast
      · intro ba before bytes fault hba hparse
        cases bytes with
        | nil =>
            cases hparse
            have hread := (read 1).stuck hba rfl
            rw [ByteArray.readVarintLoop, ByteArray.readFuint8, ByteArray.readByte, hread]
            rfl
        | cons b bytes =>
            obtain ⟨ba₁, hba₁, -, hcapacity₁, hround⟩ := readVarintLoop_cons host hba rounds i acc
            rw [hround]
            simp only [Parser.varint] at hparse
            split at hparse
            · cases hparse
            · next hmore =>
              rw [← hcapacity₁] at hba₁
              exact (if_neg hmore).trans ((ih _ _).stuck hba₁ hparse)

theorem readUint64 : Follows (ByteArray.readUint64 host) Parser.size Eq := readVarintLoop 10 0 0

theorem readUint32 : Follows (ByteArray.readUint32 host) (Parser.varint 5 0 (0 : BitVec 32)) Eq :=
  readVarintLoop 5 0 0

theorem readByte : Follows (ByteArray.readByte host) (Parser.take 1) fun _ _ => True :=
  (read 1).map (fun bs _ => BitVec.ofNat 8 (host.value bs)) fun _ _ _ _ => trivial

theorem readFixed (n w : Nat) : Follows (ByteArray.readFixed host n w) (Parser.take n)
    fun _ _ => True := by
  cases host with
  | little => exact (read n).map (fun bs _ => BitVec.ofNat w (ofLE bs)) fun _ _ _ _ => trivial
  | big =>
      exact (read n).map (fun bs _ => BitVec.ofNat w (byteSwap n (ofLE bs.reverse)))
        fun _ _ _ _ => trivial

theorem resize_read (n : Nat) : Follows (fun ba => do
    let value ← ByteArray.resize n
    ba.read value.length) (Parser.chars n) Eq := by
  by_cases hn : n < 2 ^ 63
  · have hresize : ByteArray.resize n = .ok (List.replicate n 0) := if_pos hn
    simp only [hresize]
    rw [Parser.chars, if_pos hn]
    change Follows (fun ba => ba.read (List.replicate n 0).length) (Parser.take n) Eq
    rw [List.length_replicate]
    exact read n
  · have hresize : ByteArray.resize n = .error .lengthError := if_neg hn
    simp only [hresize]
    rw [Parser.chars, if_neg hn]
    refine ⟨?_, ?_, ?_⟩
    · intro ba size before bytes bs rest _ hparse
      cases hparse
    · intro ba size before bytes fault _ _ y ba' hrun
      cases hrun
    · intro ba before bytes fault _ hparse
      cases hparse
      rfl

theorem readStringVint : Follows (ByteArray.readStringVint host) Parser.string Eq := by
  have hnext : ∀ (b : BitVec 64) (len : BitVec 64), b = len → Follows (fun ba => do
      let value ← ByteArray.resize len.toNat
      ba.read value.length) (Parser.chars b.toNat) Eq := by
    rintro len _ rfl
    exact resize_read len.toNat
  refine readUint64.bind hnext fun len ba y ba' hrun => ?_
  obtain ⟨value, -, hread⟩ := Outcome.bind_eq_ok.mp hrun
  exact (ByteArray.advances_read value.length).mono (Nat.zero_le _) hread

end Follows

theorem Scalar.skips_read {host : ByteOrder} (s : Scalar) : Skips (s.read host) s.skip := by
  cases s with
  | bool =>
      have hread : Follows (Scalar.bool.read host) (Parser.take 1) fun _ _ => True :=
        Follows.readByte.map (fun t _ => t != 0#8) fun _ _ _ _ => trivial
      exact hread.discard
  | float => exact (Follows.readFixed 4 32).discard
  | double => exact (Follows.readFixed 8 64).discard
  | int8 => exact Follows.readByte.discard
  | uint8 => exact Follows.readByte.discard
  | int16 => exact (Follows.readFixed 2 16).discard
  | uint16 => exact (Follows.readFixed 2 16).discard
  | int32 =>
      have hread : Follows (ByteArray.readInt32 host) (Parser.varint 5 0 (0 : BitVec 32)) fun _ _ => True :=
        Follows.readUint32.map (fun value _ => ByteArray.decodeZigzag32 value) fun _ _ _ _ => trivial
      exact hread.discard
  | uint32 => exact Follows.readUint32.discard
  | int64 =>
      have hread : Follows (ByteArray.readInt64 host) Parser.size fun _ _ => True :=
        Follows.readUint64.map (fun value _ => ByteArray.decodeZigzag64 value) fun _ _ _ _ => trivial
      exact hread.discard
  | uint64 => exact Follows.readUint64.discard
  | string => exact Follows.readStringVint.discard

namespace Ty

variable {host : ByteOrder} {order : HashOrder}

theorem skips_repeatRead {α : Type} {body : α → ByteArray → Except Fault (α × ByteArray)}
    {skip : Parser Unit} (hbody : ∀ v, Skips (body v) skip) (hmoves : ∀ v, Advances 0 (body v))
    (size : Nat) (v : α) : Skips (repeatRead body size v) (Parser.skipMany skip size) := by
  induction size generalizing v with
  | zero => exact Follows.ok (fun _ => v) () fun _ => trivial
  | succ size ih => exact (hbody v).bind (fun _ y _ => ih y) (advances_repeatRead hmoves size)

theorem skips_container {α : Type} {body : α → ByteArray → Except Fault (α × ByteArray)}
    {skip : Parser Unit} (hbody : ∀ v, Skips (body v) skip) (hmoves : ∀ v, Advances 0 (body v)) (v : α) :
    Skips (fun ba => do
        let (size, ba) ← ba.readUint64 host
        repeatRead body size.toNat v ba)
      (do
        let size ← Parser.size
        Parser.skipMany skip size.toNat) := by
  refine Follows.readUint64.bind ?_ fun size => advances_repeatRead hmoves size.toNat v
  rintro size _ rfl
  exact skips_repeatRead hbody hmoves size.toNat v

theorem skips_two {α β γ : Type} {getA : ByteArray → Except Fault (α × ByteArray)}
    {getB : ByteArray → Except Fault (β × ByteArray)} {skipA skipB : Parser Unit}
    (ha : Skips getA skipA) (hb : Skips getB skipB) (hmoves : Advances 0 getB)
    (f : α → β → ByteArray → γ) :
    Skips (fun ba => getA ba >>= fun r => getB r.2 >>= fun s => .ok (f r.1 s.1 s.2, s.2))
      (do
        skipA
        skipB) := by
  have hnext : ∀ (_ : Unit) (y : α), True →
      Skips (fun ba => getB ba >>= fun s => .ok (f y s.1 s.2, s.2)) skipB :=
    fun _ y _ => hb.map (f y) fun _ _ _ _ => trivial
  exact ha.bind hnext fun y => hmoves.map (f y)

/-- Reading a value takes the bytes it needs, whatever is read into. -/
theorem skips_read (t : Ty) (prior : t.Val) : Skips (t.read host order prior) t.skip := by
  have hmoves : ∀ (t : Ty) (prior : t.Val), Advances 0 (t.read host order prior) :=
    fun t prior => (t.advances_read prior).mono (Nat.zero_le 1)
  induction t with
  | scalar s => exact s.skips_read
  | pair first second ihFirst ihSecond =>
      exact skips_two (ihFirst prior.1) (ihSecond prior.2) (hmoves second prior.2) fun a b _ => (a, b)
  | tupleOne t ih => exact ih prior
  | tupleSnoc init last ihInit ihLast =>
      exact skips_two (ihInit prior.1) (ihLast prior.2) (hmoves last prior.2) fun a b _ => (a, b)
  | coll kind t ih =>
      have hbody : ∀ v, Skips (readElem host order kind t v) t.skip := fun v =>
        (ih t.defaultVal).map (fun x ba =>
          kind.discipline.emplace order t.lt t.keyEq ba.position x v) fun _ _ _ _ => trivial
      exact skips_container hbody (advances_readElem kind (hmoves t t.defaultVal)) prior
  | assoc kind key val ihKey ihVal =>
      have hmovesVal := hmoves val val.defaultVal
      have hbody : ∀ v, Skips (readEntry host order kind key val v) (key.skip >>= fun _ => val.skip) :=
        fun v => skips_two (ihKey key.defaultVal) (ihVal val.defaultVal) hmovesVal fun a b ba =>
          kind.discipline.emplace order (fun x y : key.Val × val.Val => key.lt x.1 y.1)
            (fun x y => key.keyEq x.1 y.1) ba.position (a, b) v
      exact skips_container hbody (advances_readEntry kind (hmoves key key.defaultVal) hmovesVal) prior

end Ty

namespace RpcServer

open ServiceRegistry

variable {Conn : Type} {env : Env} {s : Server Conn} {request : Protocol}
variable {content funName args : Bytes} {m : Method}

/-- No result has its code on the wire, so what a content is read into keeps its own. -/
theorem not_carries (ret : Ty) (content : Bytes) (code : RPCState) : ¬ Carries env ret content code := by
  intro hcarries
  have hother : ∃ prior, prior ≠ code := by
    by_cases hcode : code = .success
    · exact ⟨.fail, by rw [hcode]; decide⟩
    · exact ⟨.success, Ne.symm hcode⟩
  obtain ⟨prior, hne⟩ := hother
  obtain ⟨ba, res, ba', -, hread, hcode⟩ := hcarries ⟨prior, [], ret.defaultVal⟩
  obtain ⟨-, -, -, hkept⟩ := Result.read_inv hread
  exact hne (hkept.symm.trans hcode)

section Reading

variable {α β : Type} {get : ByteArray → Except Fault (α × ByteArray)} {parse : Parser β}
  {R : β → α → Prop}

theorem stays_of_fits {b : β} {rest : Bytes} (hget : Follows get parse R)
    (hparse : parse content = .ok (b, rest)) : Stays env get content := by
  intro ba y ba' hba hrun
  obtain ⟨ba₁, hba₁, hholds⟩ := Serializer.ofContent_spec env.heap content
  cases hba.symm.trans hba₁
  obtain ⟨y', ba₂, used, hrun', -, hused, hholds'⟩ := hget.fits_data hholds hparse
  cases hrun.symm.trans hrun'
  rw [hholds'.position_eq, ← hused, List.nil_append, List.length_append]
  exact Nat.le_add_right _ _

/-- A reader that gets to its end without leaving the content had enough to read. -/
theorem parses_of_stays {ba ba' : ByteArray} {y : α} (hget : Follows get parse R)
    (hstays : Stays env get content) (hba : Serializer.ofContent env.heap content = .ok ba)
    (hrun : get ba = .ok (y, ba')) : ∃ b rest, parse content = .ok (b, rest) := by
  cases hparse : parse content with
  | ok r => exact ⟨r.1, r.2, rfl⟩
  | error fault =>
      obtain ⟨ba₁, hba₁, hholds⟩ := Serializer.ofContent_spec env.heap content
      cases hba.symm.trans hba₁
      have hpast := hget.short (n := ba.size) hholds hparse hrun
      have hwithin := hstays ba y ba' hba hrun
      rw [List.length_nil, Nat.zero_add] at hpast
      exact absurd hwithin (Nat.not_le.mpr hpast)

end Reading

theorem Method.skips_args (env : Env) (m : Method) :
    Skips (m.args.read env.host env.order m.args.defaultVal) m.args.skip :=
  m.args.skips_read m.args.defaultVal

namespace Server

theorem unpack_of_string (env : Env) (hparse : Parser.string content = .ok (funName, args))
    (hlength : content.length < 2 ^ 63) :
    unpack env content = .ok (funName, args) ∧ args.length < 2 ^ 63 := by
  obtain ⟨ba, hba, hholds⟩ := Serializer.ofContent_spec env.heap content
  have hfollows : Follows (ByteArray.readStringVint env.host) Parser.string Eq :=
    Follows.readStringVint
  obtain ⟨_, ba', used, hrun, rfl, hused, hholds'⟩ := hfollows.fits_data hholds hparse
  have hargs : args.length < 2 ^ 63 := by
    rw [← hused, List.length_append] at hlength
    omega
  refine ⟨?_, hargs⟩
  rw [unpack, hba]
  change (ba.readStringVint env.host >>= fun r => r.2.toString >>= fun args => .ok (r.1, args)) = _
  rw [hrun]
  change (ba'.toString >>= fun args => .ok (funName, args)) = _
  rw [hholds'.toString hargs]
  rfl

/-- The handler gets to its end where the call does. -/
theorem handleMethodCall_of_call (hlength : request.content.length < 2 ^ 63)
    (hparse : Parser.string request.content = .ok (funName, args))
    (hcall : ∃ r, s.call env funName args = .ok r) : ∃ r, s.handleMethodCall env request = .ok r := by
  obtain ⟨hunpack, -⟩ := unpack_of_string env hparse hlength
  obtain ⟨r, hr⟩ := hcall
  exact ⟨_, Outcome.bind_eq_ok.mpr ⟨_, hunpack, Outcome.bind_eq_ok.mpr ⟨r, hr, rfl⟩⟩⟩

theorem handleMethodCall_of_wellFormed (hlength : request.content.length < 2 ^ 63)
    (hreturns : ∀ name m, s.services name = some m → m.Returns env)
    (h : s.WellFormed request.content) : ∃ r, s.handleMethodCall env request = .ok r := by
  obtain ⟨funName, args, hparse, hargs⟩ := h
  apply handleMethodCall_of_call hlength hparse
  cases hservices : s.services funName with
  | none => exact ⟨_, call_none hservices args⟩
  | some m =>
      obtain ⟨rest, hskip⟩ := hargs m hservices
      obtain ⟨ba, hba, hholds⟩ := Serializer.ofContent_spec env.heap args
      obtain ⟨received, ba', -, hread, -⟩ := (m.skips_args env).fits_data hholds hskip
      obtain ⟨-, content, hcontent⟩ := hreturns funName m hservices received
      exact ⟨_, call_read hservices hba hread hcontent⟩

theorem wellFormed_of_robust (h : s.Robust env request) : s.WellFormed request.content := by
  obtain ⟨r, hr⟩ := h.returns
  obtain ⟨⟨funName, args⟩, hunpack, -⟩ := Outcome.bind_eq_ok.mp hr
  obtain ⟨ba, hba, hrest⟩ := Outcome.bind_eq_ok.mp hunpack
  obtain ⟨⟨name, ba'⟩, hname, -⟩ := Outcome.bind_eq_ok.mp hrest
  obtain ⟨funName', args', hparse⟩ := parses_of_stays Follows.readStringVint h.name hba hname
  refine ⟨funName', args', hparse, fun m hservices => ?_⟩
  cases hskip : m.args.skip args' with
  | ok r => exact ⟨r.2, rfl⟩
  | error fault =>
      obtain ⟨response, -, hcarries⟩ := h.tooShort funName' args' m fault hparse hservices hskip
      exact absurd hcarries (not_carries _ _ _)

/-- Where the functions return and the content is no longer than a string can be, the handler does what
it owes to a request just if the name is all there and, if it is registered, the arguments are too. -/
theorem robust_iff {Conn : Type} (env : Env) (s : Server Conn) (request : Protocol)
    (hlength : request.content.length < 2 ^ 63)
    (hreturns : ∀ name m, s.services name = some m → m.Returns env) :
    s.Robust env request ↔ s.WellFormed request.content := by
  constructor
  · exact wellFormed_of_robust
  · intro hwell
    obtain ⟨funName, args, hparse, hargs⟩ := hwell
    obtain ⟨hunpack, -⟩ := unpack_of_string env hparse hlength
    refine ⟨handleMethodCall_of_wellFormed hlength hreturns ⟨funName, args, hparse, hargs⟩,
      stays_of_fits Follows.readStringVint hparse, ?_, ?_⟩
    · intro funName' args' m hunpack' hservices
      cases hunpack.symm.trans hunpack'
      obtain ⟨rest, hskip⟩ := hargs m hservices
      exact stays_of_fits (m.skips_args env) hskip
    · intro funName' args' m fault hparse' hservices hfails
      cases hparse.symm.trans hparse'
      obtain ⟨rest, hskip⟩ := hargs m hservices
      cases hskip.symm.trans hfails

section Examples

open Registry (plainEnv)

theorem returns_successor : successor.Returns plainEnv := by
  intro args
  have hvalid : successor.ret.Valid (successor.run args) := trivial
  have hmsg := ByteArray.length_stringBytes []
  have hval : (successor.ret.encode plainEnv.host (successor.run args)).length = 1 := by
    change (ByteOrder.bytes plainEnv.host 1 _).length = 1
    exact ByteOrder.length_bytes _ 1 _
  refine ⟨hvalid, _, Serializer.contentOf_spec (Method.writes_answer hvalid) ?_⟩
  rw [List.length_append, hval]
  rw [List.length_nil] at hmsg
  omega

/-- A request with the name of the function and its argument. -/
theorem robust_iff_successor :
    oneService.Robust plainEnv (Protocol.create .rpcMethodRequest [1, 102, 7]) := by
  refine (robust_iff plainEnv oneService _ (by decide) ?_).mpr ⟨[102], [7], rfl, ?_⟩
  · intro name m hservices
    simp only [oneService] at hservices
    split at hservices
    · cases hservices
      exact returns_successor
    · cases hservices
  · intro m hservices
    cases hservices
    exact ⟨[], rfl⟩

/-- The argument is not there. The function is invoked all the same, on a byte from behind the request. -/
theorem not_robust_truncated :
    ¬ oneService.Robust plainEnv (Protocol.create .rpcMethodRequest [1, 102]) := by
  intro h
  obtain ⟨response, hrun, -⟩ := h.tooShort [102] [] successor .nullNode rfl rfl rfl
  have hinvoked : (oneService.handleMethodCall plainEnv
      (Protocol.create .rpcMethodRequest [1, 102])).map (fun r => r.2.length) = .ok 1 := by
    decide +kernel
  rw [hrun] at hinvoked
  cases hinvoked

end Examples

end Server

end RpcServer

end AsyncRPC
