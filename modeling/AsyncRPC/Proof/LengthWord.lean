import AsyncRPC.LengthWord
import AsyncRPC.Proof.ByteArrayCodec

/-!
# What the length word lets come back

All of the string is written, so the cursor ends as far behind the word as the string is long. The
reader stops as far behind it as the word says. The two agree just if the word holds the length.
-/

namespace AsyncRPC

open Radix
open Blocks (slice slice_right)
open AsyncRPC.ByteArray (Holds Inv Reads)

theorem ByteOrder.value_bytes (host : ByteOrder) (n v : Nat) :
    host.value (host.bytes n v) = v % 256 ^ n := by
  cases host with
  | little => exact ofLE_leBytes n v
  | big =>
      rw [ByteOrder.value, ByteOrder.bytes, List.reverse_reverse]
      exact ofLE_leBytes n v

namespace LengthWord

variable {word : LengthWord} {host : ByteOrder} {heap : Heap} {ba : ByteArray}
variable {before after s data : List UInt8}

theorem two_pow_bits (word : LengthWord) : 2 ^ word.bits = 256 ^ word.bytes := by
  rw [bits, Nat.pow_mul]

theorem writeString_eq (word : LengthWord) (host : ByteOrder) (heap : Heap) (s : List UInt8)
    (ba : ByteArray) :
    word.writeString host heap s ba =
      (ba.writeFixed host heap word.bytes (BitVec.ofNat word.bits s.length) >>=
        fun ba => ba.write heap s) := by
  cases word <;> rfl

theorem readString_eq (word : LengthWord) (host : ByteOrder) (ba : ByteArray) :
    word.readString host ba =
      (ba.readFixed host word.bytes word.bits >>= fun r =>
        ByteArray.resize r.1.toNat >>= fun value => r.2.read value.length) := by
  cases word <;> rfl

/-- The word as it lies in the memory of the host. -/
def lengthBytes (word : LengthWord) (host : ByteOrder) (s : List UInt8) : List UInt8 :=
  host.bytes word.bytes (BitVec.ofNat word.bits s.length).toNat

/-- The length that the reader takes from it. -/
def lengthRead (word : LengthWord) (host : ByteOrder) (s : List UInt8) : BitVec word.bits :=
  BitVec.ofNat word.bits (ofLE (word.lengthBytes host s))

theorem length_lengthBytes (word : LengthWord) (host : ByteOrder) (s : List UInt8) :
    (word.lengthBytes host s).length = word.bytes :=
  ByteOrder.length_bytes host _ _

theorem reads_length (word : LengthWord) (host : ByteOrder) (s : List UInt8) :
    Reads (ByteArray.readFixed host word.bytes word.bits) (word.lengthBytes host s)
      (· = word.lengthRead host s) := by
  have hread : Reads (ByteArray.readFixed host (word.lengthBytes host s).length word.bits) _ _ :=
    ByteArray.reads_readFixed (word.lengthBytes host s) word.bits
  rwa [length_lengthBytes] at hread

theorem lengthRead_eq_iff : (word.lengthRead host s).toNat = s.length ↔ word.Fits host s := by
  have hback := ByteArray.ofNat_ofLE_bytes_iff host (BitVec.ofNat word.bits s.length)
    word.two_pow_bits
  have htoNat : s.length < 2 ^ word.bits → (BitVec.ofNat word.bits s.length).toNat = s.length := by
    intro hlt
    rw [BitVec.toNat_ofNat, Nat.mod_eq_of_lt hlt]
  constructor
  · intro hread
    have hlt : s.length < 2 ^ word.bits := hread ▸ (word.lengthRead host s).isLt
    have hsame : word.lengthRead host s = BitVec.ofNat word.bits s.length :=
      BitVec.eq_of_toNat_eq (hread.trans (htoNat hlt).symm)
    refine ⟨hlt, ?_⟩
    rw [← htoNat hlt]
    exact hback.mp hsame
  · rintro ⟨hlt, hhost⟩
    rw [← htoNat hlt] at hhost
    exact (congrArg BitVec.toNat (hback.mpr hhost)).trans (htoNat hlt)

/-- A string is written at the cursor with more data behind it, and the cursor put back. -/
theorem written_spec (word : LengthWord) (host : ByteOrder) (heap : Heap)
    (h : Holds ba before after) (s data : List UInt8) :
    ∃ written followed back rest,
      word.writeString host heap s ba = .ok written ∧ written.write heap data = .ok followed ∧
      followed.setPosition ba.position = .ok back ∧
      written.position = ba.position + word.bytes + s.length ∧
      word.stored host ba.position written = s.length % 2 ^ word.bits ∧
      Holds back before (word.lengthBytes host s ++ (s ++ (data ++ rest))) := by
  obtain ⟨prefixed, hbegins, hbeginsed⟩ := h.writeOver heap (word.lengthBytes host s)
  obtain ⟨written, hwrite, hwritten⟩ := hbeginsed.writeOver heap s
  obtain ⟨followed, hfollow, hfollowed⟩ := hwritten.writeOver heap data
  have hlay : before ++ word.lengthBytes host s ++ s ++ data =
      before ++ (word.lengthBytes host s ++ (s ++ data)) := by
    simp only [List.append_assoc]
  rw [hlay] at hfollowed
  obtain ⟨back, hback, hholds⟩ := hfollowed.rewind
  simp only [List.append_assoc] at hholds
  refine ⟨written, followed, back, _, ?_, hfollow, ?_, ?_, ?_, hholds⟩
  · rw [writeString_eq, ByteArray.writeFixed]
    exact Outcome.bind_eq_ok.mpr ⟨prefixed, hbegins, hwrite⟩
  · rw [h.position_eq]
    exact hback
  · rw [hwritten.position_eq, h.position_eq, List.length_append, List.length_append,
      length_lengthBytes]
  · have hword : slice ba.position word.bytes written.flat.data = word.lengthBytes host s := by
      rw [hwritten.data_eq, h.position_eq, List.append_assoc, List.append_assoc,
        ← Nat.add_zero before.length, slice_right, ← length_lengthBytes word host s, slice,
        List.drop_zero, List.take_left]
    rw [stored, hword, lengthBytes, ByteOrder.value_bytes, BitVec.toNat_ofNat, two_pow_bits,
      Nat.mod_mod]

theorem position_resized {n : Nat} {ba' : ByteArray}
    (h : (ByteArray.resize n >>= fun value => ba.read value.length) = .ok (s, ba')) :
    ba'.position = ba.position + n := by
  obtain ⟨value, hresize, hread⟩ := Outcome.bind_eq_ok.mp h
  rw [ByteArray.position_read hread]
  rw [ByteArray.resize] at hresize
  split at hresize
  · cases hresize
    rw [List.length_replicate]
  · cases hresize

theorem Returns.fits (hinv : Inv ba) (h : word.Returns host heap ba s data) : word.Fits host s := by
  obtain ⟨written, followed, back, rest, hwrite, hfollow, hback, hread, hposition, -⟩ := h
  obtain ⟨written', followed', back', more, hwrite', hfollow', hback', hend, -, hholds⟩ :=
    written_spec word host heap hinv.holds s data
  cases hwrite'.symm.trans hwrite
  cases hfollow'.symm.trans hfollow
  cases hback'.symm.trans hback
  obtain ⟨_, behind, hlength, rfl, hbehind⟩ := reads_length word host s hholds
  rw [readString_eq, hlength] at hread
  have hstop : rest.position = behind.position + (word.lengthRead host s).toNat :=
    position_resized hread
  apply lengthRead_eq_iff.mp
  rw [hbehind.position_eq, List.length_append, length_lengthBytes, ← hinv.holds.position_eq,
    hposition, hend] at hstop
  exact (Nat.add_left_cancel hstop).symm

theorem not_refuses (hinv : Inv ba) : ¬ word.Refuses host heap ba s := by
  intro hrefuses
  obtain ⟨written, -, -, -, hwrite, -, -, hend, -, -⟩ :=
    written_spec word host heap hinv.holds s []
  have hpos : 0 < word.bytes := by cases word <;> decide
  rw [hrefuses written hwrite] at hend
  omega

theorem Faithful.fits (hinv : Inv ba) (h : word.Faithful host heap ba s data) : word.Fits host s :=
  (h.1.resolve_right (not_refuses hinv)).fits hinv

theorem Fits.returns (hinv : Inv ba) (h : word.Fits host s) (data : List UInt8) :
    word.Returns host heap ba s data := by
  obtain ⟨written, followed, back, more, hwrite, hfollow, hback, hend, -, hholds⟩ :=
    written_spec word host heap hinv.holds s data
  obtain ⟨_, behind, hlength, rfl, hbehind⟩ := reads_length word host s hholds
  have hsize : s.length < 2 ^ 63 := by
    refine h.1.trans_le (Nat.pow_le_pow_right Nat.two_pos ?_)
    cases word <;> decide
  obtain ⟨_, rest, hread, rfl, hrest⟩ :=
    ByteArray.reads_resized hsize (lengthRead_eq_iff.mpr h) hbehind
  refine ⟨written, followed, back, rest, hwrite, hfollow, hback, ?_, ?_, ?_⟩
  · rw [readString_eq, hlength]
    exact hread
  · rw [hrest.position_eq, hend, List.length_append, List.length_append, length_lengthBytes,
      ← hinv.holds.position_eq]
  · rw [hrest.unread]
    exact List.prefix_append data more

theorem Fits.counts (hinv : Inv ba) (h : word.Fits host s) : word.Counts host heap ba s := by
  intro written hwrite
  obtain ⟨written', -, -, -, hwrite', -, -, hend, hstored, -⟩ :=
    written_spec word host heap hinv.holds s []
  cases hwrite'.symm.trans hwrite
  rw [hend, hstored, Nat.mod_eq_of_lt h.1]

/-- **Strings behind a short length.** A string comes back, and the data behind it is where the cursor
stops, just if the word holds the length of the string. -/
theorem faithful_iff_fits (hinv : Inv ba) (s data : List UInt8) :
    word.Faithful host heap ba s data ↔ word.Fits host s :=
  ⟨fun h => h.fits hinv, fun h => ⟨Or.inl (h.returns hinv data), h.counts hinv⟩⟩

theorem faithful_iff_fits_three :
    f16.Faithful .little (fun _ _ => 0) (ByteArray.create (fun _ _ => 0) 4) [1, 2, 3] [9] :=
  (faithful_iff_fits (ByteArray.inv_create _ (by decide)) [1, 2, 3] [9]).mpr
    ⟨by decide, Or.inl rfl⟩

/-- As many characters as the word has values: the word says zero. -/
theorem not_faithful_wrapped :
    ¬ f16.Faithful .little (fun _ _ => 0) (ByteArray.create (fun _ _ => 0) 4096)
        (List.replicate (2 ^ 16) 120) [9] ∧
      ¬ f32.Faithful .little (fun _ _ => 0) (ByteArray.create (fun _ _ => 0) 4096)
        (List.replicate (2 ^ 32) 120) [9] := by
  have hinv : Inv (ByteArray.create (fun _ _ => 0) 4096) :=
    ByteArray.inv_create _ (Nat.succ_pos 4095)
  constructor
  · intro h
    have hlt := (h.fits hinv).1
    rw [List.length_replicate] at hlt
    exact lt_irrefl _ hlt
  · intro h
    have hlt := (h.fits hinv).1
    rw [List.length_replicate] at hlt
    exact lt_irrefl _ hlt

end LengthWord

end AsyncRPC
