import AsyncRPC.Proof.Frame

/-!
# Frames between hosts

The writers copy the words of a header out of the memory of their host, while the readers take them
for little-endian on every host. So what comes back of a word is the word itself from a little-endian
host, and the word with its bytes swapped from a big-endian one.
-/

namespace AsyncRPC

open Radix
open AsyncRPC.ByteArray (Holds)

namespace Frame

variable {enc dec : ByteOrder} {m : Frame}

theorem wire_eq (enc : ByteOrder) (m : Frame) :
    m.wire enc = rawHeader (UInt8.ofBitVec m.magic) (UInt8.ofBitVec m.version)
      (UInt8.ofBitVec m.msgType) (enc.bytes 4 m.sequenceId.toNat)
      (enc.bytes 4 (BitVec.ofNat 32 m.content.length).toNat) ++ m.content := by
  rw [wire, ByteOrder.bytes_one, ByteOrder.bytes_one, ByteOrder.bytes_one]
  simp only [rawHeader, List.append_assoc]

theorem toNat_length (h : m.content.length < 2 ^ 32) :
    (BitVec.ofNat 32 m.content.length).toNat = m.content.length := by
  rw [BitVec.toNat_ofNat, Nat.mod_eq_of_lt h]

theorem portable_iff (h : m.content.length < 2 ^ 32) :
    m.Portable enc ↔ BitVec.ofNat 32 (ofLE (enc.bytes 4 m.sequenceId.toNat)) = m.sequenceId ∧
      BitVec.ofNat 32 (ofLE (enc.bytes 4 (BitVec.ofNat 32 m.content.length).toNat)) =
        BitVec.ofNat 32 m.content.length := by
  have hword : 2 ^ 32 = 256 ^ 4 := by decide
  rw [ByteArray.ofNat_ofLE_bytes_iff enc _ hword, ByteArray.ofNat_ofLE_bytes_iff enc _ hword,
    toNat_length h, ← or_and_left]
  rfl

/-- An array on another host that holds what was encoded. -/
theorem received_spec (enc : ByteOrder) (heap heap' : Heap) {base : Nat} (hbase : 0 < base)
    (h : m.content.length < 2 ^ 32) :
    ∃ bt received, m.encode enc heap = .ok bt ∧ bt.toString = .ok (m.wire enc) ∧
      ((ByteArray.create heap' base).write heap' (m.wire enc) >>= fun ba => ba.setPosition 0) =
        .ok received ∧ Holds received [] (m.wire enc) := by
  obtain ⟨bt, hencode, hbt⟩ := encode_wire enc heap m
  have hshort : (m.wire enc).length < 2 ^ 63 := by
    simp only [wire, List.length_append, ByteOrder.length_bytes]
    omega
  obtain ⟨written, hwrite, hwritten⟩ := (ByteArray.holds_create heap' hbase).write heap' (m.wire enc)
  obtain ⟨received, hreset, hreceived⟩ := hwritten.setPosition_zero
  refine ⟨bt, received, hencode, hbt.toString hshort, ?_, by simpa using hreceived⟩
  exact Outcome.bind_eq_ok.mpr ⟨written, hwrite, hreset⟩

theorem Recovers.portable (hrecovers : m.Recovers enc dec) (h : m.content.length < 2 ^ 32) :
    m.Portable enc := by
  obtain ⟨bt, bytes, received, hencode, htext, hreceived, -, hmeta⟩ :=
    hrecovers (fun _ _ => 0) (fun _ _ => 0) 1 .new Nat.one_pos
  obtain ⟨bt', received', hencode', htext', hreceived', hholds⟩ :=
    received_spec enc (fun _ _ => 0) (fun _ _ => 0) Nat.one_pos h
  cases hencode'.symm.trans hencode
  cases htext'.symm.trans htext
  cases hreceived'.symm.trans hreceived
  obtain ⟨m', rest, hdecode, hagrees⟩ := hmeta
  rw [wire_eq] at hholds
  obtain ⟨rest', hdecode', -⟩ :=
    decodeMeta_raw dec .new (ByteOrder.length_bytes ..) (ByteOrder.length_bytes ..) hholds
  cases hdecode'.symm.trans hdecode
  apply (portable_iff h).mpr
  refine ⟨hagrees.sequenceId, BitVec.eq_of_toNat_eq ?_⟩
  exact hagrees.contentLength.trans (toNat_length h).symm

theorem Portable.recovers (hportable : m.Portable enc) (h : m.content.length < 2 ^ 32) :
    m.Recovers enc dec := by
  obtain ⟨hid, hlen⟩ := (portable_iff h).mp hportable
  intro heap heap' base request hbase
  obtain ⟨bt, received, hencode, htext, hreceived, hholds⟩ := received_spec enc heap heap' hbase h
  have hsequence : (enc.bytes 4 m.sequenceId.toNat).length = 4 := ByteOrder.length_bytes ..
  have hlength : (enc.bytes 4 (BitVec.ofNat 32 m.content.length).toNat).length = 4 :=
    ByteOrder.length_bytes ..
  rw [wire_eq] at hholds
  refine ⟨bt, _, received, hencode, htext, hreceived, ?_, ?_⟩
  · have hlt : ofLE (enc.bytes 4 (BitVec.ofNat 32 m.content.length).toNat) < 2 ^ 32 := by
      have hword := ofLE_lt (enc.bytes 4 (BitVec.ofNat 32 m.content.length).toNat)
      rwa [hlength] at hword
    have hstored : m.content.length =
        ofLE (enc.bytes 4 (BitVec.ofNat 32 m.content.length).toNat) := by
      have hvalue := congrArg BitVec.toNat hlen
      rw [BitVec.toNat_ofNat, Nat.mod_eq_of_lt hlt, toNat_length h] at hvalue
      rw [toNat_length h]
      exact hvalue.symm
    have hall : Holds received [] (rawHeader (UInt8.ofBitVec m.magic) (UInt8.ofBitVec m.version)
        (UInt8.ofBitVec m.msgType) (enc.bytes 4 m.sequenceId.toNat)
        (enc.bytes 4 (BitVec.ofNat 32 m.content.length).toNat) ++ (m.content ++ [])) := by
      rwa [List.append_nil]
    obtain ⟨rest, hdecode, -⟩ := decode_raw dec request hsequence hlength hstored hall
    exact ⟨_, rest, hdecode, rfl, rfl, rfl, hid, toNat_length h⟩
  · obtain ⟨rest, hdecode, -⟩ := decodeMeta_raw dec request hsequence hlength hholds
    refine ⟨_, rest, hdecode, rfl, rfl, rfl, hid, ?_⟩
    exact (congrArg BitVec.toNat hlen).trans (toNat_length h)

/-- **Frames between hosts.** A header written on one host is read back on another just if the first
is little-endian or the words read the same from both ends; the second host does not matter. -/
theorem recovers_iff (enc dec : ByteOrder) (m : Frame) (h : m.content.length < 2 ^ 32) :
    m.Recovers enc dec ↔ m.Portable enc :=
  ⟨fun hrecovers => hrecovers.portable h, fun hportable => hportable.recovers h⟩

/-- A request with sequence id 1 and the content `[0]`. -/
def firstRequest : Frame :=
  { Frame.new with msgType := 1#8, sequenceId := 1#32, contentLength := 1#32, content := [0] }

theorem recovers_iff_firstRequest :
    firstRequest.Recovers .little .big ↔ firstRequest.Portable .little :=
  recovers_iff .little .big firstRequest (by decide)

/-- From a big-endian host. -/
theorem not_recovers_firstRequest : ¬ firstRequest.Recovers .big .little := by
  intro hrecovers
  rcases hrecovers.portable (by decide) with hlittle | ⟨hid, -⟩
  · cases hlittle
  · exact absurd hid (by decide)

end Frame

end AsyncRPC
