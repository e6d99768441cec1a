import AsyncRPC.Proof.RpcSession
import AsyncRPC.RecvRequest

/-!
# The two decoders of a frame

However a frame arrives in pieces, `recvRequest` puts it together to what `Protocol::decode` makes of
it when it lies in an array, and both stop at its end.
-/

namespace AsyncRPC.RpcSession

open Blocks Word
open AsyncRPC.ByteArray (Holds)

variable {ba : ByteArray} {before rest : List UInt8} {frags : List Nat}

theorem faulting_ok {α : Type} (a : α) : faulting (.ok a) = .ok a := rfl

/-- One call of `recv` while all of `bytes` is still to come. -/
theorem take_recv (bytes rest : List UInt8) (k : Nat) :
    (bytes ++ rest).take (min k bytes.length) = bytes.take k := by
  rw [List.take_append_of_le_length (Nat.min_le_right _ _), ← List.take_take, List.take_length]

theorem drop_recv (bytes rest : List UInt8) (k : Nat) :
    (bytes ++ rest).drop (bytes.take k).length = bytes.drop k ++ rest := by
  rw [List.length_take, List.drop_append_of_le_length (Nat.min_le_right _ _)]
  rcases Nat.le_total k bytes.length with hle | hge
  · rw [Nat.min_eq_left hle]
  · rw [Nat.min_eq_right hge, List.drop_length, List.drop_eq_nil_of_le hge]

theorem left_recv (bytes : List UInt8) (k : Nat) :
    subSize bytes.length (bytes.take k).length = (bytes.drop k).length := by
  rw [List.length_take, subSize_of_le (Nat.min_le_right _ _), List.length_drop]
  omega

theorem length_take_pos {bytes : List UInt8} {k : Nat} (hpos : 0 < bytes.length) (hk : 1 ≤ k) :
    0 < (bytes.take k).length := by
  rw [List.length_take]
  omega

/-- The pieces of what is still to come are put behind what is there, and no byte more is taken. -/
theorem readFixSizeByteArray_spec (heap : Heap) (len : Nat) (bytes rest : List UInt8)
    (hba : Holds ba before []) (hfrags : ∀ k ∈ frags, 1 ≤ k)
    (henough : bytes.length ≤ frags.length) :
    ∃ ba' frags', readFixSizeByteArray heap len frags bytes.length ba (bytes ++ rest) =
        .ok (intOfSize len, ba', ⟨rest, frags'⟩) ∧ Holds ba' (before ++ bytes) [] ∧
      (∀ k ∈ frags', 1 ≤ k) ∧ frags.length ≤ frags'.length + bytes.length := by
  induction frags generalizing ba before bytes with
  | nil =>
      obtain rfl : bytes = [] := List.length_eq_zero_iff.mp (Nat.le_zero.mp henough)
      exact ⟨ba, [], rfl, by simpa using hba, hfrags, Nat.zero_le _⟩
  | cons k frags ih =>
      obtain ⟨hk, hfrags'⟩ := List.forall_mem_cons.mp hfrags
      rcases Nat.eq_zero_or_pos bytes.length with hzero | hpos
      · obtain rfl : bytes = [] := List.length_eq_zero_iff.mp hzero
        exact ⟨ba, k :: frags, rfl, by simpa using hba, hfrags, Nat.le_refl _⟩
      · have hwire : bytes ++ rest ≠ [] := List.append_ne_nil_of_left_ne_nil
          (List.length_pos_iff.mp hpos) rest
        obtain ⟨ba₁, hread, -, hba₁⟩ := read_spec hba heap hpos hk hwire
        rw [take_recv] at hread hba₁
        have hgot := length_take_pos hpos hk
        have hrest : (bytes.drop k).length ≤ frags.length := by
          rw [List.length_drop]
          rw [List.length_cons] at henough
          omega
        obtain ⟨ba', frags', hrun, hba', hleft, hcount⟩ := ih (bytes.drop k) hba₁ hfrags' hrest
        refine ⟨ba', frags', ?_, ?_, hleft, ?_⟩
        · rw [readFixSizeByteArray, if_pos hpos]
          simp only [hread, faulting_ok, bind, Except.bind, if_neg (Nat.not_le.mpr hgot), drop_recv,
            left_recv]
          exact hrun
        · rwa [List.append_assoc, List.take_append_drop] at hba'
        · rw [List.length_drop] at hcount
          rw [List.length_cons]
          omega

theorem readFixSizeBuff_nil (len : Nat) {buff : List UInt8} {offset : Nat}
    (hbuff : buff.length = offset) :
    readFixSizeBuff len frags 0 offset buff rest =
      .ok (intOfSize len, buff.take offset ++ [], ⟨rest, frags⟩) := by
  rw [List.append_nil, List.take_of_length_le (Nat.le_of_eq hbuff)]
  cases frags <;> rfl

/-- The same for a buffer that has room for what is still to come. -/
theorem readFixSizeBuff_spec (len : Nat) (bytes rest buff : List UInt8) (offset : Nat)
    (hbuff : buff.length = offset + bytes.length) (hfrags : ∀ k ∈ frags, 1 ≤ k)
    (henough : bytes.length ≤ frags.length) (hsmall : buff.length < 2 ^ 64) :
    ∃ frags', readFixSizeBuff len frags bytes.length offset buff (bytes ++ rest) =
      .ok (intOfSize len, buff.take offset ++ bytes, ⟨rest, frags'⟩) := by
  induction frags generalizing bytes buff offset with
  | nil =>
      obtain rfl : bytes = [] := List.length_eq_zero_iff.mp (Nat.le_zero.mp henough)
      exact ⟨[], readFixSizeBuff_nil len hbuff⟩
  | cons k frags ih =>
      obtain ⟨hk, hfrags'⟩ := List.forall_mem_cons.mp hfrags
      rcases Nat.eq_zero_or_pos bytes.length with hzero | hpos
      · obtain rfl : bytes = [] := List.length_eq_zero_iff.mp hzero
        exact ⟨k :: frags, readFixSizeBuff_nil len hbuff⟩
      · have hgot := length_take_pos hpos hk
        have hfits : offset + (bytes.take k).length ≤ buff.length := by
          rw [List.length_take]
          omega
        have hoffset : addSize offset (bytes.take k).length = offset + (bytes.take k).length :=
          addSize_of_lt (Nat.lt_of_le_of_lt hfits hsmall)
        have hrest : (bytes.drop k).length ≤ frags.length := by
          rw [List.length_drop]
          rw [List.length_cons] at henough
          omega
        have hroom : (overwrite offset (bytes.take k) buff).length =
            offset + (bytes.take k).length + (bytes.drop k).length := by
          rw [length_overwrite hfits, hbuff, Nat.add_assoc, ← List.length_append,
            List.take_append_drop]
        obtain ⟨frags', hrun⟩ := ih (bytes.drop k) (overwrite offset (bytes.take k) buff)
          (offset + (bytes.take k).length) hroom hfrags' hrest
          (by rwa [length_overwrite hfits])
        refine ⟨frags', ?_⟩
        rw [readFixSizeBuff, if_pos hpos]
        simp only [take_recv, if_neg (Nat.not_le.mpr hgot), drop_recv, left_recv, hoffset]
        rw [hrun, take_overwrite (Nat.le_of_add_right_le hfits), List.append_assoc,
          List.take_append_drop]

/-- The object that a frame is decoded to. -/
def decoded (version msgType : UInt8) (sequence content : List UInt8) : Frame :=
  { magic := Frame.protocolMagic
    version := version.toBitVec
    msgType := msgType.toBitVec
    sequenceId := BitVec.ofNat 32 (Radix.ofLE sequence)
    contentLength := BitVec.ofNat 32 content.length
    content := content }

section Frames

variable {version msgType : UInt8} {sequence length content : List UInt8}

theorem wire_eq_rawHeader (magic version msgType : UInt8) (sequence length bytes : List UInt8) :
    magic :: version :: msgType :: (sequence ++ (length ++ bytes)) =
      Frame.rawHeader magic version msgType sequence length ++ bytes := by
  simp [Frame.rawHeader]

/-- All of a frame has been read, and then the length of its content is looked at as an `int`. -/
theorem recvRequest_received (host : ByteOrder) (heap : Heap) (version msgType : UInt8)
    (sequence rest : List UInt8) (frags : List Nat) (hsequence : sequence.length = 4)
    (hlength : length.length = 4) (hcontent : content.length = Radix.ofLE length)
    (hfrags : ∀ k ∈ frags, 1 ≤ k) (henough : 11 + content.length ≤ frags.length) :
    ∃ frags', recvRequest host heap
        ⟨Frame.rawHeader 0xaa version msgType sequence length ++ (content ++ rest), frags⟩ =
      .ok (if content.length < 2 ^ 31 then some (decoded version msgType sequence content) else none,
        ⟨rest, frags'⟩) := by
  have hheader : (Frame.rawHeader 0xaa version msgType sequence length).length = 11 :=
    Frame.length_rawHeader hsequence hlength
  obtain ⟨ba₁, frags₁, hread, hba₁, hfrags₁, hcount⟩ := readFixSizeByteArray_spec heap
    Frame.baseLength (Frame.rawHeader 0xaa version msgType sequence length) (content ++ rest)
    (ByteArray.holds_create heap (Nat.succ_pos 4095)) hfrags (by omega)
  obtain ⟨ba₂, hreset, hba₂⟩ := hba₁.setPosition_zero
  simp only [List.nil_append] at hba₂
  obtain ⟨ba₃, hmeta, -⟩ := Frame.decodeMeta_raw host .new hsequence hlength hba₂
  rw [hheader] at hread hcount
  have hfield : content.length < 2 ^ 32 := by
    have hlt := Radix.ofLE_lt length
    rw [hlength] at hlt
    omega
  have hstored : (BitVec.ofNat 32 (Radix.ofLE length)).toNat = content.length := by
    rw [BitVec.toNat_ofNat, ← hcontent, Nat.mod_eq_of_lt hfield]
  have hheaderRet : ¬ intOfSize Frame.baseLength ≤ 0 := by decide
  have hmagic : (0xaa : UInt8).toBitVec = Frame.protocolMagic := by decide
  unfold recvRequest
  rw [show Frame.baseLength = 11 from rfl] at hread hheaderRet ⊢
  simp only [hread, hreset, hmeta, faulting_ok, bind, Except.bind, if_neg hheaderRet, hmagic, hstored,
    ne_eq, not_true_eq_false, if_false]
  by_cases hzero : content.length = 0
  · obtain rfl : content = [] := List.length_eq_zero_iff.mp hzero
    refine ⟨frags₁, ?_⟩
    rw [if_pos hzero, if_pos (show ([] : List UInt8).length < 2 ^ 31 by decide), ← hcontent]
    rfl
  · have hresize : ByteArray.resize content.length = .ok (List.replicate content.length 0) :=
      if_pos (by omega)
    obtain ⟨frags₂, hbuff⟩ := readFixSizeBuff_spec content.length content rest
      (List.replicate content.length 0) 0 (by simp) hfrags₁ (by omega)
      (by rw [List.length_replicate]; omega)
    refine ⟨frags₂, ?_⟩
    rw [if_neg hzero]
    simp only [hresize, faulting_ok, hbuff]
    by_cases hshort : content.length < 2 ^ 31
    · have hret : ¬ intOfSize content.length ≤ 0 := by
        rw [intOfSize_eq_self_iff.mpr hshort]
        omega
      rw [if_neg hret, if_pos hshort, ← hcontent]
      rfl
    · have hret : intOfSize content.length ≤ 0 := by
        rw [intOfSize_of_high] <;> omega
      rw [if_pos hret, if_neg hshort]

theorem recvRequest_spec (host : ByteOrder) (heap : Heap) (hsequence : sequence.length = 4)
    (hlength : length.length = 4) (hcontent : content.length = Radix.ofLE length)
    (hshort : content.length < 2 ^ 31) (hfrags : ∀ k ∈ frags, 1 ≤ k)
    (henough : 11 + content.length ≤ frags.length) :
    ∃ frags', recvRequest host heap
        ⟨Frame.rawHeader 0xaa version msgType sequence length ++ (content ++ rest), frags⟩ =
      .ok (some (decoded version msgType sequence content), ⟨rest, frags'⟩) := by
  obtain ⟨frags', hrecv⟩ := recvRequest_received host heap version msgType sequence rest frags
    hsequence hlength hcontent hfrags henough
  rw [if_pos hshort] at hrecv
  exact ⟨frags', hrecv⟩

theorem decode_spec (host : ByteOrder) {ba : ByteArray} (hsequence : sequence.length = 4)
    (hlength : length.length = 4) (hcontent : content.length = Radix.ofLE length)
    (hba : Holds ba before
      (Frame.rawHeader 0xaa version msgType sequence length ++ (content ++ rest))) :
    ∃ ba', Frame.new.decode host ba = .ok (decoded version msgType sequence content, ba') ∧
      ba'.position = ba.position + (11 + content.length) := by
  obtain ⟨ba', hdecode, hba'⟩ := Frame.decode_raw host .new hsequence hlength hcontent hba
  refine ⟨ba', hdecode, ?_⟩
  have hheader : (Frame.rawHeader 0xaa version msgType sequence length).length = 11 :=
    Frame.length_rawHeader hsequence hlength
  rw [hba'.position_eq, hba.position_eq, List.length_append, List.length_append, hheader]

end Frames

/-- **The two decoders.** A header with the right first byte and the content it announces, in pieces
of any size on a stream and as a whole at the cursor of an array: `recvRequest` and `Protocol::decode`
come to the same object, and both stop behind the content. -/
theorem decoders_agree (host : ByteOrder) (heap : Heap) (version msgType : UInt8)
    (sequence length content rest : List UInt8) (hsequence : sequence.length = 4)
    (hlength : length.length = 4) (hcontent : content.length = Radix.ofLE length)
    (hshort : Radix.ofLE length < 2 ^ 31) (frags : List Nat) (hfrags : ∀ k ∈ frags, 1 ≤ k)
    (henough : 11 + Radix.ofLE length ≤ frags.length) (ba : ByteArray) (before : List UInt8)
    (hba : Holds ba before
      (0xaa :: version :: msgType :: (sequence ++ (length ++ (content ++ rest))))) :
    ∃ request frags' ba',
      recvRequest host heap
          ⟨0xaa :: version :: msgType :: (sequence ++ (length ++ (content ++ rest))), frags⟩ =
        .ok (some request, ⟨rest, frags'⟩) ∧
      Frame.new.decode host ba = .ok (request, ba') ∧
      ba'.position = ba.position + (11 + Radix.ofLE length) := by
  rw [wire_eq_rawHeader] at hba ⊢
  rw [← hcontent] at hshort henough ⊢
  obtain ⟨frags', hrecv⟩ := recvRequest_spec host heap hsequence hlength hcontent hshort hfrags henough
  obtain ⟨ba', hdecode, hposition⟩ := decode_spec host hsequence hlength hcontent hba
  exact ⟨_, frags', ba', hrecv, hdecode, hposition⟩

/-- A frame with two bytes of content and a byte behind it, in pieces of three bytes. -/
theorem decoders_agree_threes :
    ∃ ba request frags' ba',
      recvRequest .big (fun _ _ => 0)
          ⟨[0xaa, 1, 1, 5, 0, 0, 0, 2, 0, 0, 0, 7, 8, 9], List.replicate 13 3⟩ =
        .ok (some request, ⟨[9], frags'⟩) ∧
      Frame.new.decode .big ba = .ok (request, ba') ∧
      ba'.position = ba.position + (11 + Radix.ofLE [2, 0, 0, 0]) := by
  obtain ⟨written, -, hwritten⟩ := (ByteArray.holds_create (fun _ _ => 0) Nat.one_pos).write
    (fun _ _ => 0) [0xaa, 1, 1, 5, 0, 0, 0, 2, 0, 0, 0, 7, 8, 9]
  obtain ⟨ba, -, hba⟩ := hwritten.setPosition_zero
  exact ⟨ba, decoders_agree .big (fun _ _ => 0) 1 1 [5, 0, 0, 0] [2, 0, 0, 0] [7, 8] [9] rfl rfl
    (by decide) (by decide) (List.replicate 13 3) (by decide) (by decide) ba [] hba⟩

/-- A frame that has been received completely is returned, just if the length of its content is positive
as an `int`, or zero. -/
theorem receives_iff_short (host : ByteOrder) (heap : Heap) (version msgType : UInt8)
    (sequence length content rest : List UInt8) (hsequence : sequence.length = 4)
    (hlength : length.length = 4) (hcontent : content.length = Radix.ofLE length) (frags : List Nat)
    (hfrags : ∀ k ∈ frags, 1 ≤ k) (henough : 11 + Radix.ofLE length ≤ frags.length) :
    (∃ request net, recvRequest host heap
          ⟨0xaa :: version :: msgType :: (sequence ++ (length ++ (content ++ rest))), frags⟩ =
        .ok (some request, net) ∧ request.content.length = Radix.ofLE length) ↔
      Radix.ofLE length < 2 ^ 31 := by
  rw [← hcontent] at henough ⊢
  obtain ⟨frags', hrecv⟩ := recvRequest_received host heap version msgType sequence rest frags
    hsequence hlength hcontent hfrags henough
  rw [wire_eq_rawHeader, hrecv]
  constructor
  · rintro ⟨request, net, hsome, -⟩
    by_contra hlong
    rw [if_neg hlong] at hsome
    cases hsome
  · intro hshort
    rw [if_pos hshort]
    exact ⟨_, _, rfl, rfl⟩

/-- Two bytes of content, one piece for each byte. -/
theorem receives_iff_short_two :
    ∃ request net, recvRequest .little (fun _ _ => 0)
        ⟨[0xaa, 1, 1, 5, 0, 0, 0, 2, 0, 0, 0, 7, 8], List.replicate 13 1⟩ =
      .ok (some request, net) ∧ request.content.length = Radix.ofLE [2, 0, 0, 0] :=
  (receives_iff_short .little (fun _ _ => 0) 1 1 [5, 0, 0, 0] [2, 0, 0, 0] [7, 8] [] rfl rfl (by decide)
    (List.replicate 13 1) (by decide) (by decide)).mpr (by decide)

/-- Two gigabytes of content arrive, and the frame is a failure. -/
theorem not_receives_twoGigabytes : ∃ net, recvRequest .little (fun _ _ => 0)
      ⟨Frame.rawHeader 0xaa 1 1 [5, 0, 0, 0] [0, 0, 0, 0x80] ++ (List.replicate (2 ^ 31) 0 ++ []),
        List.replicate (11 + 2 ^ 31) 1⟩ = .ok (none, net) := by
  have hcontent : (List.replicate (2 ^ 31) (0 : UInt8)).length = Radix.ofLE [0, 0, 0, 0x80] := by
    rw [List.length_replicate]
    decide
  have hfrags : ∀ k ∈ List.replicate (11 + 2 ^ 31) 1, 1 ≤ k := by
    intro k hk
    exact (List.eq_of_mem_replicate hk).ge
  obtain ⟨frags', hrecv⟩ := recvRequest_received .little (fun _ _ => 0) 1 1 [5, 0, 0, 0] []
    (List.replicate (11 + 2 ^ 31) 1) rfl rfl hcontent hfrags
    (by rw [List.length_replicate, List.length_replicate])
  rw [List.length_replicate, if_neg (lt_irrefl _)] at hrecv
  exact ⟨_, hrecv⟩

end AsyncRPC.RpcSession
