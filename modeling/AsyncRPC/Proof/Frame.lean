import AsyncRPC.Frame
import AsyncRPC.Proof.ByteArrayCodec

/-!
# What a frame is on the wire

Encoding a message puts its header, which takes its length from the content, before the content.
Decoding takes the fields of the header back.
-/

namespace AsyncRPC

open AsyncRPC.ByteArray (Holds Writes Reads)

namespace Frame

def header (m : Frame) : List UInt8 :=
  ByteOrder.little.bytes 1 m.magic.toNat ++ (ByteOrder.little.bytes 1 m.version.toNat ++
    (ByteOrder.little.bytes 1 m.msgType.toNat ++ (ByteOrder.little.bytes 4 m.sequenceId.toNat ++
      ByteOrder.little.bytes 4 (BitVec.ofNat 32 m.content.length).toNat)))

def bytes (m : Frame) : List UInt8 := m.header ++ m.content

variable {m : Frame}

theorem length_header (m : Frame) : m.header.length = baseLength := by
  simp only [header, List.length_append, ByteOrder.length_bytes]
  rfl

theorem length_bytes (m : Frame) : m.bytes.length = baseLength + m.content.length := by
  rw [bytes, List.length_append, length_header]

/-- What `encode` gives on any host: the words lie as they do in its memory. -/
def wire (host : ByteOrder) (m : Frame) : List UInt8 :=
  host.bytes 1 m.magic.toNat ++ (host.bytes 1 m.version.toNat ++ (host.bytes 1 m.msgType.toNat ++
    (host.bytes 4 m.sequenceId.toNat ++
      (host.bytes 4 (BitVec.ofNat 32 m.content.length).toNat ++ m.content))))

theorem encode_wire (host : ByteOrder) (heap : Heap) (m : Frame) :
    ∃ ba, m.encode host heap = .ok ba ∧ Holds ba [] (m.wire host) := by
  have hfixed : ∀ {w : Nat} (n : Nat) (x : BitVec w),
      Writes (ByteArray.writeFixed host heap n x) (host.bytes n x.toNat) :=
    fun n x => ByteArray.writes_writeFixed n x
  have hcontent : Writes (ByteArray.writeStringF32 host heap m.content)
      (host.bytes 4 (BitVec.ofNat 32 m.content.length).toNat ++ m.content) :=
    (hfixed 4 _).bind (ByteArray.writes_write heap m.content)
  have hwrites := (hfixed 1 m.magic).bind ((hfixed 1 m.version).bind ((hfixed 1 m.msgType).bind
    ((hfixed 4 m.sequenceId).bind hcontent)))
  obtain ⟨ba, hrun, hba⟩ := hwrites (ByteArray.holds_create heap (Nat.succ_pos 4095))
  obtain ⟨ba', hreset, hba'⟩ := hba.setPosition_zero
  refine ⟨ba', ?_, ?_⟩
  · have hencode : (_ >>= fun bt : ByteArray => bt.setPosition 0) = .ok ba' :=
      Outcome.bind_eq_ok.mpr ⟨ba, hrun, hreset⟩
    simp only [bind_assoc] at hencode
    exact hencode
  · rw [wire]
    simpa using hba'

theorem encode_spec (heap : Heap) (m : Frame) :
    ∃ ba, m.encode .little heap = .ok ba ∧ Holds ba [] m.bytes := by
  obtain ⟨ba, hrun, hba⟩ := encode_wire .little heap m
  refine ⟨ba, hrun, ?_⟩
  rw [bytes, header]
  simpa only [wire, List.append_assoc] using hba

theorem reads_readFuint8 (x : BitVec 8) :
    Reads (ByteArray.readFuint8 .little) (ByteOrder.little.bytes 1 x.toNat) (· = x) :=
  ByteArray.reads_byte x

theorem reads_readFuint32 (x : BitVec 32) :
    Reads (ByteArray.readFuint32 .little) (ByteOrder.little.bytes 4 x.toNat) (· = x) :=
  ByteArray.reads_fixed 4 x (by decide)

/-- The fields that decoding a header gives an object. -/
theorem decodeMeta_spec {ba : ByteArray} (request : Frame) (h : Holds ba [] m.header) :
    ∃ ba', request.decodeMeta .little ba = .ok ({ request with
      magic := m.magic
      version := m.version
      msgType := m.msgType
      sequenceId := m.sequenceId
      contentLength := BitVec.ofNat 32 m.content.length }, ba') := by
  rw [← List.append_nil m.header, header] at h
  simp only [List.append_assoc] at h
  obtain ⟨_, ba₁, hmagic, rfl, h₁⟩ := reads_readFuint8 m.magic h
  obtain ⟨_, ba₂, hversion, rfl, h₂⟩ := reads_readFuint8 m.version h₁
  obtain ⟨_, ba₃, htype, rfl, h₃⟩ := reads_readFuint8 m.msgType h₂
  obtain ⟨_, ba₄, hid, rfl, h₄⟩ := reads_readFuint32 m.sequenceId h₃
  obtain ⟨_, ba₅, hlength, rfl, -⟩ := reads_readFuint32 (BitVec.ofNat 32 m.content.length) h₄
  refine ⟨ba₅, ?_⟩
  simp only [decodeMeta, hmagic, hversion, htype, hid, hlength, bind, Except.bind]

/-! ### Any header, on any host -/

section Raw

variable {ba : ByteArray} {before after : List UInt8} {magic version msgType : UInt8}
variable {sequence length content : List UInt8}

/-- The eleven bytes of a header, the two words as they lie on the wire. -/
def rawHeader (magic version msgType : UInt8) (sequence length : List UInt8) : List UInt8 :=
  [magic] ++ ([version] ++ ([msgType] ++ (sequence ++ length)))

theorem length_rawHeader (hsequence : sequence.length = 4) (hlength : length.length = 4) :
    (rawHeader magic version msgType sequence length).length = baseLength := by
  simp only [rawHeader, List.length_append, hsequence, hlength]
  rfl

theorem reads_rawWord (host : ByteOrder) {word : List UInt8} (h : word.length = 4) :
    Reads (ByteArray.readFuint32 host) word (· = BitVec.ofNat 32 (Radix.ofLE word)) := by
  have hread : Reads (ByteArray.readFixed host word.length 32) word _ :=
    ByteArray.reads_readFixed word 32
  rwa [h] at hread

theorem decodeMeta_raw (host : ByteOrder) (request : Frame) (hsequence : sequence.length = 4)
    (hlength : length.length = 4)
    (h : Holds ba before (rawHeader magic version msgType sequence length ++ after)) :
    ∃ ba', request.decodeMeta host ba = .ok ({ request with
        magic := magic.toBitVec
        version := version.toBitVec
        msgType := msgType.toBitVec
        sequenceId := BitVec.ofNat 32 (Radix.ofLE sequence)
        contentLength := BitVec.ofNat 32 (Radix.ofLE length) }, ba') ∧
      Holds ba' (before ++ rawHeader magic version msgType sequence length) after := by
  simp only [rawHeader, List.append_assoc] at h
  obtain ⟨_, ba₁, hmagic, rfl, h₁⟩ := @ByteArray.reads_readByte host magic _ _ _ h
  obtain ⟨_, ba₂, hversion, rfl, h₂⟩ := @ByteArray.reads_readByte host version _ _ _ h₁
  obtain ⟨_, ba₃, htype, rfl, h₃⟩ := @ByteArray.reads_readByte host msgType _ _ _ h₂
  obtain ⟨_, ba₄, hid, rfl, h₄⟩ := reads_rawWord host hsequence h₃
  obtain ⟨_, ba₅, hlen, rfl, h₅⟩ := reads_rawWord host hlength h₄
  refine ⟨ba₅, ?_, ?_⟩
  · simp only [decodeMeta, ByteArray.readFuint8, hmagic, hversion, htype, hid, hlen, bind, Except.bind]
  · simpa only [rawHeader, List.append_assoc] using h₅

theorem reads_rawString (host : ByteOrder) (hlength : length.length = 4)
    (hcontent : content.length = Radix.ofLE length) :
    Reads (ByteArray.readStringF32 host) (length ++ content) (· = content) := by
  have hsmall : Radix.ofLE length < 2 ^ 32 := by
    have hlt := Radix.ofLE_lt length
    rwa [hlength] at hlt
  have hbody : ∀ len : BitVec 32, len = BitVec.ofNat 32 (Radix.ofLE length) →
      Reads (fun ba => do
        let value ← ByteArray.resize len.toNat
        ba.read value.length) content (· = content) := by
    rintro _ rfl
    apply ByteArray.reads_resized (by omega)
    rw [BitVec.toNat_ofNat, Nat.mod_eq_of_lt hsmall, hcontent]
  exact (reads_rawWord host hlength).bind hbody

theorem decode_raw (host : ByteOrder) (request : Frame) (hsequence : sequence.length = 4)
    (hlength : length.length = 4) (hcontent : content.length = Radix.ofLE length)
    (h : Holds ba before (rawHeader magic version msgType sequence length ++ (content ++ after))) :
    ∃ ba', request.decode host ba = .ok ({ request with
        magic := magic.toBitVec
        version := version.toBitVec
        msgType := msgType.toBitVec
        sequenceId := BitVec.ofNat 32 (Radix.ofLE sequence)
        content := content
        contentLength := BitVec.ofNat 32 content.length }, ba') ∧
      Holds ba' (before ++ (rawHeader magic version msgType sequence length ++ content)) after := by
  simp only [rawHeader, List.append_assoc] at h
  obtain ⟨_, ba₁, hmagic, rfl, h₁⟩ := @ByteArray.reads_readByte host magic _ _ _ h
  obtain ⟨_, ba₂, hversion, rfl, h₂⟩ := @ByteArray.reads_readByte host version _ _ _ h₁
  obtain ⟨_, ba₃, htype, rfl, h₃⟩ := @ByteArray.reads_readByte host msgType _ _ _ h₂
  obtain ⟨_, ba₄, hid, rfl, h₄⟩ := reads_rawWord host hsequence h₃
  rw [← List.append_assoc] at h₄
  obtain ⟨_, ba₅, hstring, rfl, h₅⟩ := reads_rawString host hlength hcontent h₄
  refine ⟨ba₅, ?_, ?_⟩
  · simp only [decode, ByteArray.readFuint8, hmagic, hversion, htype, hid, hstring, bind, Except.bind]
  · simpa only [rawHeader, List.append_assoc] using h₅

end Raw

/-- A header decoded by a new object, and a content put in. -/
theorem Sendable.decoded (h : m.Sendable) :
    { Frame.new with
      magic := m.magic
      version := m.version
      msgType := m.msgType
      sequenceId := m.sequenceId
      contentLength := BitVec.ofNat 32 m.content.length } = { m with content := [] } := by
  have hlength : BitVec.ofNat 32 m.content.length = m.contentLength := by
    rw [← h.contentLength, BitVec.ofNat_toNat, BitVec.setWidth_eq]
  rw [hlength]
  rfl

theorem sendable_frame {p : Protocol} (h : p.content.length < 2 ^ 31) : p.frame.Sendable := by
  refine ⟨rfl, ?_, h⟩
  change (BitVec.ofNat 32 p.content.length).toNat = p.content.length
  rw [BitVec.toNat_ofNat, Nat.mod_eq_of_lt (h.trans (by decide))]

end Frame

end AsyncRPC
