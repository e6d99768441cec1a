import AsyncRPC.Lib.Outcome
import AsyncRPC.Subnet

/-!
# What the subnet functions give

Bit by bit in network order. `CreateMask` has its ones where the host part is, and `networkAddress`
forgets to complement it.
-/

namespace AsyncRPC.Subnet

open Radix

section Mask

/-- The only masks whose computation is not defined are those of the first two prefixes of an IPv4
address. -/
theorem createMask_ok {w bit : Nat} (hsmall : w - bit < 31) :
    createMask w bit = .ok (BitVec.ofNat w (2 ^ (w - bit) - 1)) := by
  rw [createMask, if_neg (by omega), if_neg (by omega)]

theorem createMask_undefined {bit : Nat} (hbit : bit < 2) :
    ∃ undefined, createMask 32 bit = .error undefined := by
  rw [createMask]
  rcases Nat.lt_or_ge bit 1 with hzero | hone
  · exact ⟨.shiftWidth, if_pos (by omega)⟩
  · exact ⟨.overflow, by rw [if_neg (by omega), if_pos (by omega)]⟩

/-- From the top, the ones begin behind the prefix. -/
theorem getMsbD_mask {w bit i : Nat} (hi : i < w) :
    (BitVec.ofNat w (2 ^ (w - bit) - 1)).getMsbD i = !maskBits bit i := by
  rw [BitVec.getMsbD_eq_getLsbD, decide_eq_true hi, Bool.true_and, BitVec.getLsbD_ofNat,
    decide_eq_true (by omega), Bool.true_and, Nat.testBit_two_pow_sub_one, maskBits, ← decide_not]
  apply decide_eq_decide.mpr
  omega

end Mask

section IPv4

variable {order host : ByteOrder} {addr : SockaddrIn} {p : Nat}

/-- Where in the number bit `i` of the address is. -/
def place (host : ByteOrder) (i : Nat) : Nat :=
  match host with
  | .little => 8 * (i / 8) + (7 - i % 8)
  | .big => 31 - i

theorem bitAt_bytes (host : ByteOrder) (x : BitVec 32) {i : Nat} (hi : i < 32) :
    bitAt (host.bytes 4 x.toNat) i = x.getLsbD (place host i) := by
  have hbyte : i % 8 < 8 := Nat.mod_lt i (by decide)
  have hlittle : ∀ j k : Nat, j < 4 → k < 8 →
      ((leBytes 4 x.toNat).getD j 0).toBitVec.getMsbD k = x.getLsbD (8 * j + (7 - k)) := by
    intro j k hj hk
    rw [BitVec.getMsbD_eq_getLsbD, decide_eq_true hk, Bool.true_and, ← BitVec.testBit_toNat,
      UInt8.toNat_toBitVec, testBit_leBytes, decide_eq_true hj, decide_eq_true (by omega),
      Bool.true_and, Bool.true_and, BitVec.testBit_toNat]
  cases host with
  | little => exact hlittle (i / 8) (i % 8) (by omega) hbyte
  | big =>
      have hreverse : (leBytes 4 x.toNat).reverse.getD (i / 8) 0
          = (leBytes 4 x.toNat).getD (3 - i / 8) 0 := by
        rw [List.getD_eq_getElem?_getD, List.getElem?_reverse (by rw [length_leBytes]; omega),
          length_leBytes, ← List.getD_eq_getElem?_getD]
      rw [bitAt, ByteOrder.bytes, hreverse, hlittle (3 - i / 8) (i % 8) (by omega) hbyte, place]
      congr 1
      omega

theorem place_lt (host : ByteOrder) {i : Nat} (hi : i < 32) : place host i < 32 := by
  cases host with
  | little =>
      rw [place]
      omega
  | big =>
      rw [place]
      omega

theorem castPlace_lt (order host : ByteOrder) {i : Nat} (hi : i < 32) : castPlace order host i < 32 := by
  rw [castPlace]
  split <;> omega

theorem getLsbD_endianCast (order host : ByteOrder) (m : BitVec 32) {i : Nat} (hi : i < 32) :
    (endianCast order m).getLsbD (place host i) = m.getMsbD (castPlace order host i) := by
  have hplace : place host i < 32 := place_lt host hi
  rw [BitVec.getMsbD_eq_getLsbD, decide_eq_true (castPlace_lt order host hi), Bool.true_and]
  cases order with
  | little =>
      rw [endianCast, BitVec.getLsbD_ofNat, decide_eq_true hplace, Bool.true_and,
        testBit_byteSwap _ (by omega), BitVec.testBit_toNat]
      cases host with
      | little =>
          rw [castPlace, if_pos rfl, place]
          congr 1
          omega
      | big =>
          rw [castPlace, if_neg (by decide), place]
          congr 1
          omega
  | big =>
      rw [endianCast]
      cases host with
      | little =>
          rw [castPlace, if_neg (by decide), place]
          congr 1
          omega
      | big =>
          rw [castPlace, if_pos rfl, place]

/-- The mask after the cast. -/
theorem getLsbD_cast_mask {i : Nat} (hi : i < 32) :
    (endianCast order (BitVec.ofNat 32 (2 ^ (32 - p) - 1))).getLsbD (place host i)
      = !maskBits p (castPlace order host i) := by
  rw [getLsbD_endianCast order host _ hi, getMsbD_mask (castPlace_lt order host hi)]

/-- Reversed, only the longest prefix begins at the same end. -/
theorem maskBits_castPlace_iff (hlarge : 2 ≤ p) (hp : p ≤ 32) :
    (∀ i < 32, maskBits p (castPlace order host i) = maskBits p i) ↔ order = host ∨ p = 32 := by
  have hside : ∀ i, maskBits p (castPlace order host i) = maskBits p i ↔
      (castPlace order host i < p ↔ i < p) := fun i => decide_eq_decide
  constructor
  · intro h
    by_contra hother
    rw [not_or] at hother
    have hfirst := (hside 0).mp (h 0 (by decide))
    have hlast := (hside 31).mp (h 31 (by decide))
    rw [castPlace, if_neg hother.1] at hfirst hlast
    omega
  · rintro (rfl | rfl) i hi
    · rw [castPlace, if_pos rfl]
    · exact (hside i).mpr (iff_of_true (castPlace_lt order host hi) hi)

theorem SockaddrIn.bit_eq {i : Nat} (hi : i < 32) :
    addr.bit host i = addr.sinAddr.getLsbD (place host i) :=
  bitAt_bytes host addr.sinAddr hi

/-- Nothing is given where the mask is not computed. -/
theorem SockaddrIn.two_le_of_gives {withMask : BitVec 32 → Except Undefined (Option SockaddrIn)}
    {bits : Nat → Bool} (h : Gives host (createMask 32 p >>= withMask) bits) : 2 ≤ p := by
  obtain ⟨_, hrun, -⟩ := h
  by_contra hsmall
  obtain ⟨undefined, hmask⟩ := createMask_undefined (Nat.lt_of_not_le hsmall)
  rw [hmask] at hrun
  cases hrun

/-- From the third prefix on the function returns, with these bits. -/
theorem SockaddrIn.gives_iff {result : Except Undefined (Option SockaddrIn)} {bits wanted : Nat → Bool}
    {baddr : SockaddrIn} (hresult : result = .ok (some baddr))
    (hbits : ∀ i < 32, baddr.bit host i = bits i) :
    Gives host result wanted ↔ ∀ i < 32, bits i = wanted i := by
  constructor
  · rintro ⟨_, hrun, hgives⟩ i hi
    rw [hresult] at hrun
    cases hrun
    exact (hbits i hi).symm.trans (hgives i hi)
  · exact fun h => ⟨baddr, hresult, fun i hi => (hbits i hi).trans (h i hi)⟩

theorem SockaddrIn.subnetMask_gives_iff (hp : p ≤ 32) :
    Gives host (subnetMask order p) (maskBits p) ↔ 2 ≤ p ∧ (order = host ∨ p = 32) := by
  rw [subnetMask, if_neg (Nat.not_lt.mpr hp)]
  rcases Nat.lt_or_ge p 2 with hsmall | hlarge
  · exact iff_of_false (fun h => Nat.not_le.mpr hsmall (two_le_of_gives h))
      fun h => Nat.not_le.mpr hsmall h.1
  · rw [createMask_ok (by omega), and_iff_right hlarge, ← maskBits_castPlace_iff hlarge hp]
    refine gives_iff rfl fun i hi => ?_
    rw [bit_eq hi, BitVec.zero_or, BitVec.getLsbD_not, decide_eq_true (place_lt host hi),
      Bool.true_and, getLsbD_cast_mask hi, Bool.not_not]

theorem SockaddrIn.broadcastAddress_gives_iff (addr : SockaddrIn) (hp : p ≤ 32) :
    Gives host (addr.broadcastAddress order p) (broadcastBits (addr.bit host) p) ↔
      2 ≤ p ∧ ∀ i < 32, addr.bit host i = true ∨ maskBits p (castPlace order host i) = maskBits p i := by
  rw [broadcastAddress, if_neg (Nat.not_lt.mpr hp)]
  rcases Nat.lt_or_ge p 2 with hsmall | hlarge
  · exact iff_of_false (fun h => Nat.not_le.mpr hsmall (two_le_of_gives h))
      fun h => Nat.not_le.mpr hsmall h.1
  · have hbits : ∀ i < 32, ({ addr with
        sinAddr := addr.sinAddr ||| endianCast order (BitVec.ofNat 32 (2 ^ (32 - p) - 1)) } :
          SockaddrIn).bit host i = (addr.bit host i || !maskBits p (castPlace order host i)) := by
      intro i hi
      rw [bit_eq hi, BitVec.getLsbD_or, getLsbD_cast_mask hi, bit_eq hi]
    rw [createMask_ok (by omega), and_iff_right hlarge]
    refine (gives_iff rfl hbits).trans (forall₂_congr ?_)
    intro i _
    rw [broadcastBits]
    cases addr.bit host i <;> cases maskBits p i <;> simp

/-- The bits that are kept are those behind the prefix instead of those in front of it. -/
theorem SockaddrIn.networkAddress_gives_iff (addr : SockaddrIn) (hp : p ≤ 32) :
    Gives host (addr.networkAddress order p) (networkBits (addr.bit host) p) ↔
      2 ≤ p ∧ ∀ i < 32, addr.bit host i = false ∨
        maskBits p (castPlace order host i) = !maskBits p i := by
  rw [networkAddress, if_neg (Nat.not_lt.mpr hp)]
  rcases Nat.lt_or_ge p 2 with hsmall | hlarge
  · exact iff_of_false (fun h => Nat.not_le.mpr hsmall (two_le_of_gives h))
      fun h => Nat.not_le.mpr hsmall h.1
  · have hbits : ∀ i < 32, ({ addr with
        sinAddr := addr.sinAddr &&& endianCast order (BitVec.ofNat 32 (2 ^ (32 - p) - 1)) } :
          SockaddrIn).bit host i = (addr.bit host i && !maskBits p (castPlace order host i)) := by
      intro i hi
      rw [bit_eq hi, BitVec.getLsbD_and, getLsbD_cast_mask hi, bit_eq hi]
    rw [createMask_ok (by omega), and_iff_right hlarge]
    refine (gives_iff rfl hbits).trans (forall₂_congr ?_)
    intro i _
    rw [networkBits]
    cases addr.bit host i <;> cases maskBits p i <;> simp

end IPv4

section IPv6

namespace SockaddrIn6

variable {addr : SockaddrIn6} {p : Nat}

theorem get_eq {bytes : Fin 16 → UInt8} {i : Nat} (hi : i < 16) : get bytes i = .ok (bytes ⟨i, hi⟩) :=
  dif_pos hi

theorem put_eq {bytes : Fin 16 → UInt8} {i : Nat} (hi : i < 16) (value : UInt8) :
    put bytes i value = .ok fun j => if j.val = i then value else bytes j := by
  rw [put, dif_pos hi]
  congr 1
  funext j
  exact if_congr Fin.ext_iff rfl rfl

theorem fill_eq (value : UInt8) {first rounds : Nat} {bytes : Fin 16 → UInt8}
    (h : first + rounds ≤ 16) :
    fill value first rounds bytes
      = .ok fun j => if first ≤ j.val ∧ j.val < first + rounds then value else bytes j := by
  induction rounds generalizing first bytes with
  | zero =>
      rw [fill]
      congr 1
      funext j
      rw [if_neg (by omega)]
  | succ rounds ih =>
      rw [fill, put_eq (by omega)]
      change fill value (first + 1) rounds _ = _
      rw [ih (by omega)]
      congr 1
      funext j
      by_cases hfirst : j.val = first
      · rw [if_neg (by omega), if_pos hfirst, if_pos (by omega)]
      · rw [if_neg hfirst]
        exact if_congr (by omega) rfl rfl

theorem bit_eq {i : Nat} (hi : i < 128) :
    addr.bit i = (addr.s6Addr ⟨i / 8, by omega⟩).toBitVec.getMsbD (i % 8) := by
  have hplace : i / 8 < (List.ofFn addr.s6Addr).length := by
    rw [List.length_ofFn]
    omega
  rw [bit, bitAt, List.getD_eq_getElem?_getD, List.getElem?_eq_getElem hplace, Option.getD_some,
    List.getElem_ofFn]

theorem createMask_byte (p : Nat) :
    createMask 8 (p % 8) = .ok (BitVec.ofNat 8 (2 ^ (8 - p % 8) - 1)) :=
  createMask_ok (by omega)

/-- A bit in the byte where the prefix ends. -/
theorem maskBits_mod {i : Nat} (h : i / 8 = p / 8) : maskBits (p % 8) (i % 8) = maskBits p i := by
  rw [maskBits, maskBits]
  apply decide_eq_decide.mpr
  omega

theorem maskBits_before {i : Nat} (h : i / 8 < p / 8) : maskBits p i = true :=
  decide_eq_true (by omega)

theorem maskBits_behind {i : Nat} (h : p / 8 < i / 8) : maskBits p i = false :=
  decide_eq_false (by omega)

theorem getMsbD_ones {k : Nat} (hk : k < 8) : (0xff : UInt8).toBitVec.getMsbD k = true := by
  have hall : ∀ k < 8, (0xff : UInt8).toBitVec.getMsbD k = true := by decide
  exact hall k hk

theorem getMsbD_zeros (k : Nat) : (0x00 : UInt8).toBitVec.getMsbD k = false :=
  BitVec.getMsbD_zero

/-- The ones of the byte where the prefix ends. -/
def lowMask (p : Nat) : UInt8 := UInt8.ofBitVec (BitVec.ofNat 8 (2 ^ (8 - p % 8) - 1))

theorem getMsbD_lowMask {i : Nat} (h : i / 8 = p / 8) :
    (lowMask p).toBitVec.getMsbD (i % 8) = !maskBits p i := by
  rw [lowMask, UInt8.toBitVec_ofBitVec, getMsbD_mask (Nat.mod_lt i (by decide)), maskBits_mod h]

/-- One byte is stored, and the rest of the array is filled. -/
theorem put_fill_eq {bytes : Fin 16 → UInt8} {i : Nat} (hi : i < 16) (byte value : UInt8) :
    (put bytes i byte).bind (fill value (i + 1) (16 - (i + 1)))
      = .ok fun j => if i < j.val then value else if j.val = i then byte else bytes j := by
  rw [put_eq hi]
  change fill value (i + 1) (16 - (i + 1)) _ = _
  rw [fill_eq value (by omega)]
  congr 1
  funext j
  exact if_congr (by omega) rfl rfl

/-- One byte is combined with the mask, and those behind it are set. -/
theorem combine_eq (hp : p / 8 < 16) (combine : UInt8 → UInt8 → UInt8) (value : UInt8) :
    (do
      let mask ← createMask 8 (p % 8)
      let byte ← get addr.s6Addr (p / 8)
      let bytes ← put addr.s6Addr (p / 8) (combine byte (UInt8.ofBitVec mask))
      let bytes ← fill value (p / 8 + 1) (16 - (p / 8 + 1)) bytes
      .ok { addr with s6Addr := bytes }) = .ok { addr with
    s6Addr := fun j => if p / 8 < j.val then value
      else if j.val = p / 8 then combine (addr.s6Addr ⟨p / 8, hp⟩) (lowMask p) else addr.s6Addr j } := by
  obtain ⟨bytes, hput, hfill⟩ := Outcome.bind_eq_ok.mp
    (@put_fill_eq addr.s6Addr _ hp (combine (addr.s6Addr ⟨p / 8, hp⟩) (lowMask p)) value)
  refine Outcome.bind_eq_ok.mpr ⟨_, createMask_byte p, ?_⟩
  refine Outcome.bind_eq_ok.mpr ⟨_, get_eq hp, ?_⟩
  refine Outcome.bind_eq_ok.mpr ⟨bytes, hput, ?_⟩
  exact Outcome.bind_eq_ok.mpr ⟨_, hfill, rfl⟩

theorem broadcastAddress_eq (hp : p / 8 < 16) : addr.broadcastAddress p = .ok { addr with
    s6Addr := fun j => if p / 8 < j.val then 0xff
      else if j.val = p / 8 then addr.s6Addr ⟨p / 8, hp⟩ ||| lowMask p else addr.s6Addr j } :=
  combine_eq hp (· ||| ·) 0xff

theorem networkAddress_eq (hp : p / 8 < 16) : addr.networkAddress p = .ok { addr with
    s6Addr := fun j => if p / 8 < j.val then 0x00
      else if j.val = p / 8 then addr.s6Addr ⟨p / 8, hp⟩ &&& lowMask p else addr.s6Addr j } :=
  combine_eq hp (· &&& ·) 0x00

theorem subnetMask_eq (hp : p / 8 < 16) : subnetMask p = .ok
    { sin6Port := 0
      s6Addr := fun j => if 0 ≤ j.val ∧ j.val < 0 + p / 8 then 0xff
        else if j.val = p / 8 then ~~~ lowMask p else 0 } := by
  refine Outcome.bind_eq_ok.mpr ⟨_, createMask_byte p, ?_⟩
  refine Outcome.bind_eq_ok.mpr ⟨_, put_eq hp _, ?_⟩
  exact Outcome.bind_eq_ok.mpr ⟨_, fill_eq 0xff (by omega), rfl⟩

/-- Behind the sixteenth byte each of the three functions leaves the array. -/
theorem outOfBounds (hp : 16 ≤ p / 8) : addr.broadcastAddress p = .error .outOfBounds ∧
    addr.networkAddress p = .error .outOfBounds ∧ subnetMask p = .error .outOfBounds := by
  have hget : get addr.s6Addr (p / 8) = .error .outOfBounds := dif_neg (Nat.not_lt.mpr hp)
  have hput : ∀ value, put (fun _ => 0) (p / 8) value = .error .outOfBounds :=
    fun _ => dif_neg (Nat.not_lt.mpr hp)
  refine ⟨?_, ?_, ?_⟩
  · rw [broadcastAddress, createMask_byte, hget]
    rfl
  · rw [networkAddress, createMask_byte, hget]
    rfl
  · rw [subnetMask, createMask_byte]
    change (put _ (p / 8) _ >>= _) = _
    rw [hput]
    rfl

theorem lt_of_gives {result : Except Undefined SockaddrIn6} {bits : Nat → Bool}
    (h : Gives result bits) (hfails : 16 ≤ p / 8 → result = .error .outOfBounds) : p < 128 := by
  obtain ⟨_, hrun, -⟩ := h
  by_contra hlarge
  rw [hfails (by omega)] at hrun
  cases hrun

theorem bit_of_byte {bytes : Fin 16 → UInt8} {port : BitVec 16} {byte : UInt8} {i : Nat} (hi : i < 128)
    (hbyte : bytes ⟨i / 8, by omega⟩ = byte) :
    ({ sin6Port := port, s6Addr := bytes } : SockaddrIn6).bit i = byte.toBitVec.getMsbD (i % 8) := by
  rw [bit_eq hi, ← hbyte]

theorem subnetMask_gives_iff (p : Nat) : Gives (subnetMask p) (maskBits p) ↔ p < 128 := by
  refine ⟨fun h => lt_of_gives h fun hp => (@outOfBounds ⟨0, fun _ => 0⟩ p hp).2.2, fun hp => ?_⟩
  refine ⟨_, subnetMask_eq (by omega), fun i hi => ?_⟩
  have hbit : i % 8 < 8 := Nat.mod_lt i (by decide)
  have hcase : ¬ i / 8 < p / 8 → ¬ (0 ≤ i / 8 ∧ i / 8 < 0 + p / 8) := by omega
  rcases Nat.lt_trichotomy (i / 8) (p / 8) with hlt | heq | hgt
  · rw [bit_of_byte hi (if_pos (by omega : 0 ≤ i / 8 ∧ i / 8 < 0 + p / 8)), getMsbD_ones hbit,
      maskBits_before hlt]
  · rw [bit_of_byte hi ((if_neg (hcase heq.not_lt)).trans (if_pos heq)), UInt8.toBitVec_not,
      BitVec.getMsbD_not, decide_eq_true hbit, Bool.true_and, getMsbD_lowMask heq, Bool.not_not]
  · rw [bit_of_byte hi ((if_neg (hcase hgt.not_gt)).trans (if_neg hgt.ne')), getMsbD_zeros,
      maskBits_behind hgt]

theorem broadcastAddress_gives_iff (addr : SockaddrIn6) (p : Nat) :
    Gives (addr.broadcastAddress p) (broadcastBits addr.bit p) ↔ p < 128 := by
  refine ⟨fun h => lt_of_gives h fun hp => (outOfBounds hp).1, fun hp => ?_⟩
  refine ⟨_, broadcastAddress_eq (by omega), fun i hi => ?_⟩
  rw [broadcastBits]
  rcases Nat.lt_trichotomy (i / 8) (p / 8) with hlt | heq | hgt
  · rw [bit_of_byte hi ((if_neg hlt.not_gt).trans (if_neg hlt.ne)), ← bit_eq hi, maskBits_before hlt,
      Bool.not_true, Bool.or_false]
  · rw [bit_of_byte hi ((if_neg heq.not_gt).trans (if_pos heq)), UInt8.toBitVec_or, BitVec.getMsbD_or,
      getMsbD_lowMask heq, bit_eq hi]
    simp only [heq]
  · rw [bit_of_byte hi (if_pos hgt), getMsbD_ones (Nat.mod_lt i (by decide)), maskBits_behind hgt,
      Bool.not_false, Bool.or_true]

/-- In front of its last byte the network address is right, behind it too; in it, it is right only if the
byte is zero. -/
theorem networkAddress_gives_iff (addr : SockaddrIn6) (p : Nat) :
    Gives (addr.networkAddress p) (networkBits addr.bit p) ↔
      ∃ hp : p / 8 < 16, addr.s6Addr ⟨p / 8, hp⟩ = 0 := by
  constructor
  · intro h
    have hp := lt_of_gives h fun hp => (outOfBounds hp).2.1
    have hplace : p / 8 < 16 := by omega
    refine ⟨hplace, ?_⟩
    obtain ⟨_, hrun, hgives⟩ := h
    rw [networkAddress_eq hplace] at hrun
    cases hrun
    apply UInt8.toBitVec_inj.mp
    apply BitVec.eq_of_getMsbD_eq
    intro k hk
    have hi : 8 * (p / 8) + k < 128 := by omega
    have hdiv : (8 * (p / 8) + k) / 8 = p / 8 := by omega
    have hmod : (8 * (p / 8) + k) % 8 = k := by omega
    have hbit := hgives _ hi
    rw [bit_of_byte hi ((if_neg hdiv.not_gt).trans (if_pos hdiv)), networkBits, bit_eq hi,
      UInt8.toBitVec_and, BitVec.getMsbD_and, getMsbD_lowMask hdiv] at hbit
    simp only [hdiv, hmod] at hbit
    rw [getMsbD_zeros]
    cases hone : (addr.s6Addr ⟨p / 8, hplace⟩).toBitVec.getMsbD k with
    | false => rfl
    | true =>
        rw [hone] at hbit
        cases hmask : maskBits p (8 * (p / 8) + k) <;> simp [hmask] at hbit
  · rintro ⟨hp, hzero⟩
    refine ⟨_, networkAddress_eq hp, fun i hi => ?_⟩
    rw [networkBits]
    rcases Nat.lt_trichotomy (i / 8) (p / 8) with hlt | heq | hgt
    · rw [bit_of_byte hi ((if_neg hlt.not_gt).trans (if_neg hlt.ne)), ← bit_eq hi,
        maskBits_before hlt, Bool.and_true]
    · rw [bit_of_byte hi ((if_neg heq.not_gt).trans (if_pos heq)), hzero, UInt8.zero_and,
        getMsbD_zeros, bit_eq hi]
      simp only [heq, hzero]
      rw [getMsbD_zeros, Bool.false_and]
    · rw [bit_of_byte hi (if_pos hgt), getMsbD_zeros, maskBits_behind hgt, Bool.and_false]

end SockaddrIn6

end IPv6

/-- For either kind of address and every prefix length it can have, each of the three functions gives what
it should just if the mask is computed, no byte behind the array is accessed, the cast brings the prefix to
the side of it where it belongs, and for the network address no bit that is kept by mistake is set. -/
theorem subnets_give_iff (order host : ByteOrder) (addr : SockaddrIn) (addr6 : SockaddrIn6) {p : Nat}
    (hp : p ≤ 32) (p' : Nat) :
    ((SockaddrIn.Gives host (SockaddrIn.subnetMask order p) (maskBits p) ↔
        2 ≤ p ∧ (order = host ∨ p = 32)) ∧
      (SockaddrIn.Gives host (addr.broadcastAddress order p) (broadcastBits (addr.bit host) p) ↔
        2 ≤ p ∧ ∀ i < 32, addr.bit host i = true ∨
          maskBits p (castPlace order host i) = maskBits p i) ∧
      (SockaddrIn.Gives host (addr.networkAddress order p) (networkBits (addr.bit host) p) ↔
        2 ≤ p ∧ ∀ i < 32, addr.bit host i = false ∨
          maskBits p (castPlace order host i) = !maskBits p i)) ∧
    (SockaddrIn6.Gives (SockaddrIn6.subnetMask p') (maskBits p') ↔ p' < 128) ∧
      (SockaddrIn6.Gives (addr6.broadcastAddress p') (broadcastBits addr6.bit p') ↔ p' < 128) ∧
      (SockaddrIn6.Gives (addr6.networkAddress p') (networkBits addr6.bit p') ↔
        ∃ h : p' / 8 < 16, addr6.s6Addr ⟨p' / 8, h⟩ = 0) :=
  ⟨⟨SockaddrIn.subnetMask_gives_iff hp, addr.broadcastAddress_gives_iff hp,
      addr.networkAddress_gives_iff hp⟩,
    SockaddrIn6.subnetMask_gives_iff p', addr6.broadcastAddress_gives_iff p',
    addr6.networkAddress_gives_iff p'⟩

/-- `192.168.1.5` on a little-endian host. -/
def privateAddr : SockaddrIn := { sinPort := 0, sinAddr := 0x0501a8c0 }

theorem subnets_give_iff_privateAddr :
    SockaddrIn.Gives .little (SockaddrIn.subnetMask .little 24) (maskBits 24) ∧
      SockaddrIn.Gives .little (privateAddr.broadcastAddress .little 24)
        (broadcastBits (privateAddr.bit .little) 24) ∧
      ¬ SockaddrIn.Gives .little (SockaddrIn.subnetMask .big 24) (maskBits 24) ∧
      SockaddrIn6.Gives ((⟨0, fun _ => 0⟩ : SockaddrIn6).networkAddress 64)
        (networkBits (⟨0, fun _ => 0⟩ : SockaddrIn6).bit 64) := by
  have hiff := @subnets_give_iff .little .little privateAddr ⟨0, fun _ => 0⟩ 24 (by decide) 64
  have hblind := @subnets_give_iff .big .little privateAddr ⟨0, fun _ => 0⟩ 24 (by decide) 64
  refine ⟨hiff.1.1.mpr (by decide), hiff.1.2.1.mpr (by decide), fun h => ?_,
    hiff.2.2.2.mpr ⟨by decide, rfl⟩⟩
  exact absurd (hblind.1.1.mp h) (by decide)

/-- The network of `192.168.1.5/24` comes out as `0.0.0.5`, or as `192.0.0.0` where nothing is swapped;
there the mask of `/24` is `0.255.255.255`. The mask of `/0` takes a shift by the width of an `int`, and an
IPv6 prefix of full length leaves the array. -/
theorem not_networkAddress_privateAddr :
    privateAddr.networkAddress .little 24 = .ok (some { sinPort := 0, sinAddr := 0x05000000 }) ∧
      ¬ SockaddrIn.Gives .little (privateAddr.networkAddress .little 24)
        (networkBits (privateAddr.bit .little) 24) ∧
      ¬ SockaddrIn.Gives .little (privateAddr.networkAddress .big 24)
        (networkBits (privateAddr.bit .little) 24) ∧
      SockaddrIn.subnetMask .big 24 = .ok (some { sinPort := 0, sinAddr := 0xffffff00 }) ∧
      SockaddrIn.subnetMask .little 0 = .error .shiftWidth ∧
      SockaddrIn6.subnetMask 128 = .error .outOfBounds := by
  have hwrong : ∀ order, (∀ i < 32, privateAddr.bit .little i = false ∨
      maskBits 24 (castPlace order .little i) = !maskBits 24 i) → False := by
    intro order h
    cases order with
    | little => exact absurd (h 0 (by decide)) (by decide)
    | big => exact absurd (h 8 (by decide)) (by decide)
  refine ⟨by decide, fun h => ?_, fun h => ?_, by decide, rfl,
    (@SockaddrIn6.outOfBounds ⟨0, fun _ => 0⟩ 128 (by decide)).2.2⟩
  · exact hwrong .little ((privateAddr.networkAddress_gives_iff (by decide)).mp h).2
  · exact hwrong .big ((privateAddr.networkAddress_gives_iff (by decide)).mp h).2

end AsyncRPC.Subnet
