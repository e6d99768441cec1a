import AsyncRPC.ByteArrayCodec
import AsyncRPC.Lib.Outcome
import AsyncRPC.Proof.ByteArray

/-!
# What typed writes leave for typed reads

Each writer appends the bytes of its value (`Writes`), and each reader that finds such bytes at the
cursor returns the value and stops behind them (`Reads`). The one exception is a fixed-width integer
on a big-endian host: it is written as it lies in memory and read as a little-endian one.
-/

namespace AsyncRPC

open Radix

theorem ByteOrder.value_singleton (host : ByteOrder) (b : UInt8) : host.value [b] = b.toNat := by
  cases host <;> simp [ByteOrder.value, ofLE]

theorem ByteOrder.length_bytes (host : ByteOrder) (n v : Nat) : (host.bytes n v).length = n := by
  cases host <;> simp [ByteOrder.bytes]

theorem ByteOrder.bytes_one (host : ByteOrder) (x : BitVec 8) :
    host.bytes 1 x.toNat = [UInt8.ofBitVec x] := by
  have hbyte : UInt8.ofNat x.toNat = UInt8.ofBitVec x :=
    congrArg UInt8.ofBitVec (BitVec.eq_of_toNat_eq (by simp))
  rw [← hbyte]
  cases host <;> rfl

namespace ByteArray

variable {host : ByteOrder} {heap : Heap}

section Combinators

/-- At the end of the data, `put` appends `bytes`. -/
def Writes (put : ByteArray → Except Fault ByteArray) (bytes : List UInt8) : Prop :=
  ∀ ⦃ba before⦄, Holds ba before [] → ∃ ba', put ba = .ok ba' ∧ Holds ba' (before ++ bytes) []

/-- With `bytes` at the cursor, `get` takes just them and returns a value that satisfies `P`. -/
def Reads {α : Type} (get : ByteArray → Except Fault (α × ByteArray)) (bytes : List UInt8)
    (P : α → Prop) : Prop :=
  ∀ ⦃ba before after⦄, Holds ba before (bytes ++ after) →
    ∃ y ba', get ba = .ok (y, ba') ∧ P y ∧ Holds ba' (before ++ bytes) after

variable {α β : Type} {xs ys : List UInt8}

theorem writes_write (heap : Heap) (buf : List UInt8) : Writes (fun ba => ba.write heap buf) buf :=
  fun _ _ h => h.write heap buf

theorem Writes.bind {put next : ByteArray → Except Fault ByteArray} (hput : Writes put xs)
    (hnext : Writes next ys) : Writes (fun ba => put ba >>= next) (xs ++ ys) := by
  intro ba before h
  obtain ⟨ba₁, hrun, h₁⟩ := hput h
  obtain ⟨ba', hrun', h'⟩ := hnext h₁
  refine ⟨ba', ?_, ?_⟩
  · simp only [hrun]
    exact hrun'
  · rw [← List.append_assoc]
    exact h'

theorem reads_read (bytes : List UInt8) : Reads (fun ba => ba.read bytes.length) bytes (· = bytes) := by
  intro ba before after h
  obtain ⟨ba', hrun, h'⟩ := h.read
  exact ⟨bytes, ba', hrun, rfl, h'⟩

theorem Reads.bind {get : ByteArray → Except Fault (α × ByteArray)} {P : α → Prop} {Q : β → Prop}
    {next : α → ByteArray → Except Fault (β × ByteArray)} (hget : Reads get xs P)
    (hnext : ∀ y, P y → Reads (next y) ys Q) :
    Reads (fun ba => get ba >>= fun r => next r.1 r.2) (xs ++ ys) Q := by
  intro ba before after h
  rw [List.append_assoc] at h
  obtain ⟨y, ba₁, hrun, hy, h₁⟩ := hget h
  obtain ⟨z, ba', hrun', hz, h'⟩ := hnext y hy h₁
  refine ⟨z, ba', ?_, hz, ?_⟩
  · simp only [hrun]
    exact hrun'
  · rw [← List.append_assoc]
    exact h'

/-- The value read may be used together with where the reader stands. -/
theorem Reads.map {get : ByteArray → Except Fault (α × ByteArray)} {P : α → Prop} {Q : β → Prop}
    (hget : Reads get xs P) (f : α → ByteArray → β) (hf : ∀ y ba, P y → Q (f y ba)) :
    Reads (fun ba => get ba >>= fun r => .ok (f r.1 r.2, r.2)) xs Q := by
  intro ba before after h
  obtain ⟨y, ba', hrun, hy, h'⟩ := hget h
  refine ⟨f y ba', ba', ?_, hf y ba' hy, h'⟩
  simp only [hrun]
  rfl

theorem Reads.map₂ {γ : Type} {getA : ByteArray → Except Fault (α × ByteArray)} {P : α → Prop}
    {getB : ByteArray → Except Fault (β × ByteArray)} {Q : β → Prop} {R : γ → Prop}
    (ha : Reads getA xs P) (hb : Reads getB ys Q) (f : α → β → ByteArray → γ)
    (hf : ∀ a b ba, P a → Q b → R (f a b ba)) :
    Reads (fun ba => getA ba >>= fun r => getB r.2 >>= fun s => .ok (f r.1 s.1 s.2, s.2))
      (xs ++ ys) R := by
  have hnext : ∀ a, P a →
      Reads (fun ba => getB ba >>= fun s => .ok (f a s.1 s.2, s.2)) ys R :=
    fun a hPa => hb.map (f a) fun b ba hQb => hf a b ba hPa hQb
  exact ha.bind hnext

end Combinators

section Advances

/-- Wherever it starts and whatever it finds, `get` moves the cursor by at least `n`. -/
def Advances {α : Type} (n : Nat) (get : ByteArray → Except Fault (α × ByteArray)) : Prop :=
  ∀ ⦃ba y ba'⦄, get ba = .ok (y, ba') → ba.position + n ≤ ba'.position

variable {α β : Type} {n m : Nat}

theorem advances_ok (f : ByteArray → α) : Advances 0 fun ba => .ok (f ba, ba) := by
  intro ba y ba' h
  cases h
  exact Nat.le_refl _

theorem advances_read (n : Nat) : Advances n fun ba => ba.read n := by
  intro ba y ba' h
  exact (position_read h).ge

theorem Advances.bind {get : ByteArray → Except Fault (α × ByteArray)}
    {next : α → ByteArray → Except Fault (β × ByteArray)} (hget : Advances n get)
    (hnext : ∀ y, Advances m (next y)) :
    Advances (n + m) fun ba => get ba >>= fun r => next r.1 r.2 := by
  intro ba z ba' h
  obtain ⟨r, hrun, hrest⟩ := Outcome.bind_eq_ok.mp h
  calc ba.position + (n + m) = ba.position + n + m := (Nat.add_assoc _ _ _).symm
    _ ≤ r.2.position + m := Nat.add_le_add_right (hget hrun) m
    _ ≤ ba'.position := hnext r.1 hrest

theorem Advances.mono {get : ByteArray → Except Fault (α × ByteArray)} (h : Advances n get)
    (hm : m ≤ n) : Advances m get :=
  fun _ _ _ hrun => (Nat.add_le_add_left hm _).trans (h hrun)

theorem Advances.map {get : ByteArray → Except Fault (α × ByteArray)} (hget : Advances n get)
    (f : α → ByteArray → β) : Advances n fun ba => get ba >>= fun r => .ok (f r.1 r.2, r.2) := by
  have hnext : ∀ a, Advances 0 fun ba => .ok (f a ba, ba) := fun a => advances_ok (f a)
  exact hget.bind hnext

theorem Advances.map₂ {γ : Type} {getA : ByteArray → Except Fault (α × ByteArray)}
    {getB : ByteArray → Except Fault (β × ByteArray)} (ha : Advances n getA) (hb : Advances m getB)
    (f : α → β → ByteArray → γ) :
    Advances (n + m)
      fun ba => getA ba >>= fun r => getB r.2 >>= fun s => .ok (f r.1 s.1 s.2, s.2) := by
  have hnext : ∀ a, Advances m fun ba => getB ba >>= fun s => .ok (f a s.1 s.2, s.2) :=
    fun a => hb.map (f a)
  exact ha.bind hnext

theorem advances_readByte : Advances 1 (readByte host) :=
  (advances_read 1).bind fun bs => advances_ok fun _ => BitVec.ofNat 8 (host.value bs)

theorem advances_readFixed (n w : Nat) : Advances n (readFixed host n w) := by
  have hnext : ∀ bs : List UInt8, Advances 0 fun ba =>
      if endian = host then .ok (BitVec.ofNat w (host.value bs), ba)
      else .ok (BitVec.ofNat w (byteSwap n (host.value bs)), ba) := by
    intro bs
    split
    · exact advances_ok _
    · exact advances_ok _
  exact (advances_read n).bind hnext

theorem advances_readVarintLoop {w : Nat} (rounds i : Nat) (acc : BitVec w) :
    Advances (min rounds 1) (readVarintLoop host rounds i acc) := by
  induction rounds generalizing i acc with
  | zero => exact advances_ok _
  | succ rounds ih =>
      have hnext : ∀ temp : BitVec 8, Advances 0 fun ba =>
          if temp < 0x80#8 then .ok (acc ||| (temp.setWidth w <<< i), ba)
          else readVarintLoop host rounds (i + 7) (acc ||| ((temp &&& 0x7F#8).setWidth w <<< i)) ba := by
        intro temp
        split
        · exact advances_ok _
        · exact (ih _ _).mono (Nat.zero_le _)
      rw [Nat.min_eq_right (Nat.le_add_left 1 rounds)]
      exact advances_readByte.bind hnext

theorem advances_readUint64 : Advances 1 (readUint64 host) := advances_readVarintLoop 10 0 0

theorem advances_readUint32 : Advances 1 (readUint32 host) := advances_readVarintLoop 5 0 0

theorem advances_readStringVint : Advances 1 (readStringVint host) := by
  have hnext : ∀ len : BitVec 64, Advances 0 (fun ba => do
      let str ← resize len.toNat
      ba.read str.length) := by
    intro len
    rw [resize]
    split
    · exact (advances_read _).mono (Nat.zero_le _)
    · intro ba y ba' h
      cases h
  exact advances_readUint64.bind hnext

end Advances

/-- A varint is at most as long as the loop has rounds. -/
theorem Spare.readVarintLoop {ba : ByteArray} {w : Nat} (host : ByteOrder) {rounds : Nat}
    (h : Spare ba rounds) (i : Nat) (acc : BitVec w) :
    ∃ r, readVarintLoop host rounds i acc ba = .ok r := by
  induction rounds generalizing i acc ba with
  | zero => exact ⟨_, rfl⟩
  | succ rounds ih =>
      rw [Nat.add_comm] at h
      obtain ⟨bytes, ba', hread, h'⟩ := h.read
      rw [ByteArray.readVarintLoop, readFuint8, readByte, hread]
      simp only [bind, Except.bind]
      split
      · exact ⟨_, rfl⟩
      · exact ih h' _ _

section Fixed

theorem writes_writeFixed {w : Nat} (n : Nat) (value : BitVec w) :
    Writes (writeFixed host heap n value) (host.bytes n value.toNat) :=
  writes_write heap _

theorem reads_readByte (b : UInt8) : Reads (readByte host) [b] (· = b.toBitVec) := by
  refine (reads_read [b]).map (fun bs _ => BitVec.ofNat 8 (host.value bs)) ?_
  rintro _ - rfl
  rw [ByteOrder.value_singleton]
  exact BitVec.ofNat_toNat 8 b.toBitVec

/-- Whatever the host, the bytes are taken as little-endian. -/
theorem reads_readFixed (bs : List UInt8) (w : Nat) :
    Reads (readFixed host bs.length w) bs (· = BitVec.ofNat w (ofLE bs)) := by
  intro ba before after h
  obtain ⟨ba', hread, hholds⟩ := h.read
  refine ⟨_, ba', ?_, rfl, hholds⟩
  rw [ByteArray.readFixed, hread]
  cases host with
  | little => rfl
  | big =>
      change Except.ok (BitVec.ofNat w (byteSwap bs.length (ofLE bs.reverse)), ba') = _
      rw [byteSwap_ofLE_reverse]

theorem reads_byte (x : BitVec 8) : Reads (readByte host) (host.bytes 1 x.toNat) (· = x) := by
  rw [ByteOrder.bytes_one]
  exact reads_readByte _

theorem ofNat_ofLE_bytes {w n : Nat} (x : BitVec w) (hw : 2 ^ w = 256 ^ n) :
    BitVec.ofNat w (ofLE (ByteOrder.little.bytes n x.toNat)) = x := by
  apply BitVec.eq_of_toNat_eq
  rw [ByteOrder.bytes, ofLE_leBytes, ← hw, Nat.mod_eq_of_lt x.isLt, BitVec.toNat_ofNat,
    Nat.mod_eq_of_lt x.isLt]

/-- A word comes back just if its host is little-endian or its bytes read the same from both ends. -/
theorem ofNat_ofLE_bytes_iff {w n : Nat} (host : ByteOrder) (x : BitVec w) (hw : 2 ^ w = 256 ^ n) :
    BitVec.ofNat w (ofLE (host.bytes n x.toNat)) = x ↔
      host = .little ∨ byteSwap n x.toNat = x.toNat := by
  cases host with
  | little => exact iff_of_true (ofNat_ofLE_bytes x hw) (Or.inl rfl)
  | big =>
      have hswapped : ofLE (ByteOrder.big.bytes n x.toNat) % 2 ^ w = byteSwap n x.toNat :=
        Nat.mod_eq_of_lt (hw ▸ byteSwap_lt n x.toNat)
      rw [← BitVec.toNat_inj, BitVec.toNat_ofNat, hswapped, or_iff_right ByteOrder.noConfusion]

theorem reads_fixed {w : Nat} (n : Nat) (x : BitVec w) (hw : 2 ^ w = 256 ^ n) :
    Reads (readFixed .little n w) (ByteOrder.little.bytes n x.toNat) (· = x) := by
  have hread : Reads (readFixed .little (ByteOrder.little.bytes n x.toNat).length w) _ _ :=
    reads_readFixed (ByteOrder.little.bytes n x.toNat) w
  rwa [ByteOrder.length_bytes, ofNat_ofLE_bytes x hw] at hread

end Fixed

section Varint

def varint (v : Nat) : List UInt8 := (digits 10 v).getD []

variable {w : Nat}

theorem toNat_ofNat_of_lt (hw : 8 ≤ w) {n : Nat} (hn : n < 2 ^ 8) : (BitVec.ofNat w n).toNat = n := by
  rw [BitVec.toNat_ofNat, Nat.mod_eq_of_lt]
  exact Nat.lt_of_lt_of_le hn (Nat.pow_le_pow_right Nat.two_pos hw)

theorem varintLoop_eq (hw : 8 ≤ w) {room : Nat} {value : BitVec w} {bs : List UInt8}
    (h : digits room value.toNat = some bs) : varintLoop room value = .ok bs := by
  induction room generalizing value bs with
  | zero => cases h
  | succ room ih =>
      have hflag : (0x80#w).toNat = 0x80 := toNat_ofNat_of_lt hw (by decide)
      rw [digits] at h
      rw [varintLoop]
      split at h
      · next hlarge =>
        obtain ⟨rest, hrest, rfl⟩ := Option.map_eq_some_iff.mp h
        have hshift : (value >>> 7).toNat = value.toNat / 128 := by
          rw [BitVec.toNat_ushiftRight, Nat.shiftRight_eq_div_pow]
        have hbyte : ((value &&& 0x7F#w) ||| 0x80#w).toNat = value.toNat % 128 + 128 := by
          have hmask : (0x7F#w).toNat = 2 ^ 7 - 1 := toNat_ofNat_of_lt hw (by decide)
          rw [BitVec.toNat_or, BitVec.toNat_and, hmask, Nat.and_two_pow_sub_one_eq_mod,
            show (0x80#w).toNat = 2 ^ 7 * 1 from hflag, Nat.or_comm,
            ← Nat.two_pow_add_eq_or_of_lt (Nat.mod_lt _ (by decide)), Nat.add_comm]
        rw [if_pos (BitVec.le_def.mpr (hflag.symm ▸ hlarge)), ih (hshift.symm ▸ hrest), hbyte]
        rfl
      · next hsmall =>
        rw [if_neg fun hle => hsmall (hflag ▸ BitVec.le_def.mp hle)]
        cases h
        rfl

theorem length_varint (v : Nat) : (varint v).length ≤ 10 := by
  rw [varint]
  cases h : digits 10 v with
  | none => exact Nat.zero_le 10
  | some bs => exact length_digits h

theorem digits_varint {v : Nat} (h : v < 2 ^ 64) : digits 10 v = some (varint v) := by
  have hsome : (digits (9 + 1) v).isSome = true := digits_isSome (Nat.lt_trans h (by decide))
  rw [varint, Option.getD_of_ne_none (Option.isSome_iff_ne_none.mp hsome)]

theorem digits_varint32 {v : Nat} (h : v < 2 ^ 32) : digits 5 v = some (varint v) := by
  have hsome : (digits (4 + 1) v).isSome = true := digits_isSome (Nat.lt_trans h (by decide))
  obtain ⟨bs, hbs⟩ := Option.isSome_iff_exists.mp hsome
  have hten := digits_mono (digits_mono (digits_mono (digits_mono (digits_mono hbs))))
  rw [hbs, varint, hten, Option.getD_some]

theorem writes_writeUint32 (value : BitVec 32) :
    Writes (writeUint32 heap value) (varint value.toNat) := by
  intro ba before h
  rw [ByteArray.writeUint32, varintLoop_eq (by decide) (digits_varint32 value.isLt)]
  exact h.write heap _

theorem writes_writeUint64 (value : BitVec 64) :
    Writes (writeUint64 heap value) (varint value.toNat) := by
  intro ba before h
  rw [ByteArray.writeUint64, varintLoop_eq (by decide) (digits_varint value.isLt)]
  exact h.write heap _

theorem toNat_setWidth_of_byte (hw : 8 ≤ w) (temp : BitVec 8) :
    (temp.setWidth w).toNat = temp.toNat := by
  rw [BitVec.toNat_setWidth, Nat.mod_eq_of_lt]
  exact Nat.lt_of_lt_of_le temp.isLt (Nat.pow_le_pow_right Nat.two_pos hw)

/-- What the loop takes: each byte says that another one follows, up to one that does not or until
there are no rounds left. -/
def Front (rounds : Nat) (used : List UInt8) : Prop :=
  (∀ b ∈ used, 0x80 ≤ b) ∧ used.length = rounds ∨ Terminated used ∧ used.length ≤ rounds

theorem front_zero {used : List UInt8} (h : Front 0 used) : used = [] := by
  rcases h with ⟨-, hlength⟩ | ⟨-, hlength⟩
  · exact List.length_eq_zero_iff.mp hlength
  · exact List.length_eq_zero_iff.mp (Nat.le_zero.mp hlength)

theorem front_succ {rounds : Nat} {used : List UInt8} :
    Front (rounds + 1) used ↔
      ∃ b rest, used = b :: rest ∧ (b < 0x80 ∧ rest = [] ∨ 0x80 ≤ b ∧ Front rounds rest) := by
  cases used with
  | nil => simp [Front, not_terminated_nil]
  | cons b rest =>
      have hcases : Front (rounds + 1) (b :: rest) ↔
          b < 0x80 ∧ rest = [] ∨ 0x80 ≤ b ∧ Front rounds rest := by
        rw [Front, Front, terminated_cons, List.forall_mem_cons, List.length_cons, Nat.add_left_inj,
          Nat.add_le_add_iff_right]
        constructor
        · rintro (⟨⟨hb, hall⟩, hlength⟩ | ⟨⟨hb, rfl⟩ | ⟨hb, hterminated⟩, hlength⟩)
          · exact Or.inr ⟨hb, Or.inl ⟨hall, hlength⟩⟩
          · exact Or.inl ⟨hb, rfl⟩
          · exact Or.inr ⟨hb, Or.inr ⟨hterminated, hlength⟩⟩
        · rintro (⟨hb, rfl⟩ | ⟨hb, ⟨hall, hlength⟩ | ⟨hterminated, hlength⟩⟩)
          · exact Or.inr ⟨Or.inl ⟨hb, rfl⟩, Nat.zero_le rounds⟩
          · exact Or.inl ⟨⟨hb, hall⟩, hlength⟩
          · exact Or.inr ⟨Or.inr ⟨hb, hterminated⟩, hlength⟩
      rw [hcases]
      constructor
      · exact fun h => ⟨b, rest, rfl, h⟩
      · rintro ⟨_, _, heq, h⟩
        cases heq
        exact h

/-- Enough bytes for every round have a front for the loop to take. -/
theorem exists_front {rounds : Nat} {bytes : List UInt8} (h : rounds ≤ bytes.length) :
    ∃ used rest, bytes = used ++ rest ∧ Front rounds used := by
  induction rounds generalizing bytes with
  | zero => exact ⟨[], bytes, rfl, Or.inl ⟨by simp, rfl⟩⟩
  | succ rounds ih =>
      obtain ⟨b, bytes, rfl⟩ : ∃ b rest, bytes = b :: rest :=
        List.exists_cons_of_length_pos (Nat.zero_lt_of_lt h)
      rcases UInt8.lt_or_le b 0x80 with hlast | hcontinue
      · exact ⟨[b], bytes, rfl, front_succ.mpr ⟨b, [], rfl, Or.inl ⟨hlast, rfl⟩⟩⟩
      · obtain ⟨used, rest, rfl, hfront⟩ := ih (Nat.le_of_succ_le_succ h)
        exact ⟨b :: used, rest, rfl, front_succ.mpr ⟨b, used, rfl, Or.inr ⟨hcontinue, hfront⟩⟩⟩

/-- Putting the low seven bits of a byte above what has been read. -/
theorem toNat_or_septet (hw : 8 ≤ w) {acc : BitVec w} {i : Nat} (hacc : acc.toNat < 2 ^ i)
    (temp : BitVec 8) :
    (acc ||| ((temp &&& 0x7F#8).setWidth w <<< i)).toNat
      = (acc.toNat + temp.toNat % 128 * 2 ^ i) % 2 ^ w := by
  rw [toNat_or_shiftLeft hacc, toNat_setWidth_of_byte hw, BitVec.toNat_and,
    show (0x7F#8).toNat = 2 ^ 7 - 1 from rfl, Nat.and_two_pow_sub_one_eq_mod]

theorem reads_readVarintLoop (hw : 8 ≤ w) {rounds i : Nat} {acc : BitVec w} {used : List UInt8}
    (hused : Front rounds used) (hacc : acc.toNat < 2 ^ i) :
    Reads (readVarintLoop host rounds i acc) used
      (fun value => value.toNat = (acc.toNat + sum128 used * 2 ^ i) % 2 ^ w) := by
  induction rounds generalizing i acc used with
  | zero =>
      obtain rfl := front_zero hused
      intro ba before after h
      refine ⟨acc, ba, rfl, ?_, ?_⟩
      · rw [sum128_nil, Nat.zero_mul, Nat.add_zero, Nat.mod_eq_of_lt acc.isLt]
      · rwa [List.append_nil]
  | succ rounds ih =>
      obtain ⟨b, rest, rfl, hcases⟩ := front_succ.mp hused
      suffices hround : ∀ temp, temp = b.toBitVec →
          Reads (fun ba =>
            if temp < 0x80#8 then .ok (acc ||| (temp.setWidth w <<< i), ba)
            else readVarintLoop host rounds (i + 7)
              (acc ||| ((temp &&& 0x7F#8).setWidth w <<< i)) ba) rest
            (fun value => value.toNat = (acc.toNat + sum128 (b :: rest) * 2 ^ i) % 2 ^ w) from
        (reads_readByte b).bind hround
      intro temp htemp
      have hbyte : temp.toNat = b.toNat := by rw [htemp, UInt8.toNat_toBitVec]
      rcases hcases with ⟨hlast, rfl⟩ | ⟨hcontinue, hrest⟩
      · have hsmall : temp < 0x80#8 := by rwa [htemp, ← UInt8.lt_iff_toBitVec_lt]
        have hnumber : b.toNat < 128 := UInt8.lt_iff_toNat_lt.mp hlast
        intro ba before after h
        refine ⟨acc ||| (temp.setWidth w <<< i), ba, if_pos hsmall, ?_, ?_⟩
        · change (acc ||| (temp.setWidth w <<< i)).toNat = _
          rw [toNat_or_shiftLeft hacc, toNat_setWidth_of_byte hw, hbyte, sum128_cons, sum128_nil,
            Nat.mul_zero, Nat.add_zero, Nat.mod_eq_of_lt hnumber]
        · rwa [List.append_nil]
      · have hlarge : ¬ temp < 0x80#8 := by
          rw [htemp, ← UInt8.lt_iff_toBitVec_lt]
          exact UInt8.not_lt.mpr hcontinue
        have hnext := toNat_or_septet hw hacc temp
        have hbound : (acc ||| ((temp &&& 0x7F#8).setWidth w <<< i)).toNat < 2 ^ (i + 7) := by
          rw [hnext]
          calc (acc.toNat + temp.toNat % 128 * 2 ^ i) % 2 ^ w
              ≤ acc.toNat + temp.toNat % 128 * 2 ^ i := Nat.mod_le _ _
            _ < 2 ^ i + 127 * 2 ^ i :=
                Nat.add_lt_add_of_lt_of_le hacc (Nat.mul_le_mul_right _ (by omega))
            _ = 2 ^ (i + 7) := by ring
        have hsum : acc.toNat + temp.toNat % 128 * 2 ^ i + sum128 rest * 2 ^ (i + 7)
            = acc.toNat + sum128 (b :: rest) * 2 ^ i := by
          rw [sum128_cons, hbyte]
          ring
        have hrec := ih hrest hbound
        rw [hnext, Nat.mod_add_mod, hsum] at hrec
        simp only [if_neg hlarge]
        exact hrec

theorem reads_readVarint (hw : 8 ≤ w) {rounds : Nat} {used : List UInt8} (hused : Front rounds used) :
    Reads (readVarintLoop host rounds 0 0#w) used
      (fun value => value.toNat = sum128 used % 2 ^ w) := by
  have hzero : (0#w).toNat = 0 := by simp
  have hloop : Reads (readVarintLoop host rounds 0 0#w) used _ :=
    reads_readVarintLoop hw hused (by simp)
  simp only [hzero, Nat.zero_add, Nat.pow_zero, Nat.mul_one] at hloop
  exact hloop

theorem reads_varint_of_digits (hw : 8 ≤ w) {rounds : Nat} {value : BitVec w} {bs : List UInt8}
    (hbs : digits rounds value.toNat = some bs) :
    Reads (readVarintLoop host rounds 0 0) bs (· = value) := by
  obtain ⟨hterminated, hsum⟩ := digits_encodes hbs
  intro ba before after h
  obtain ⟨value', ba', hread, hvalue, hholds⟩ :=
    reads_readVarint hw (Or.inr ⟨hterminated, length_digits hbs⟩) h
  refine ⟨value', ba', hread, BitVec.eq_of_toNat_eq ?_, hholds⟩
  rw [hvalue, hsum, Nat.mod_eq_of_lt value.isLt]

theorem reads_readUint32 (value : BitVec 32) :
    Reads (readUint32 host) (varint value.toNat) (· = value) :=
  reads_varint_of_digits (by decide) (digits_varint32 value.isLt)

theorem reads_readUint64 (value : BitVec 64) :
    Reads (readUint64 host) (varint value.toNat) (· = value) :=
  reads_varint_of_digits (by decide) (digits_varint value.isLt)

theorem reads_readInt32 (value : BitVec 32) :
    Reads (readInt32 host) (varint (encodeZigzag32 value).toNat) (· = value) := by
  refine (reads_readUint32 _).map (fun value _ => decodeZigzag32 value) ?_
  rintro _ - rfl
  exact unzigzag_zigzag value

theorem reads_readInt64 (value : BitVec 64) :
    Reads (readInt64 host) (varint (encodeZigzag64 value).toNat) (· = value) := by
  refine (reads_readUint64 _).map (fun value _ => decodeZigzag64 value) ?_
  rintro _ - rfl
  exact unzigzag_zigzag value

/-- The count in front of a string or a container. -/
theorem writes_size {n : Nat} (h : n < 2 ^ 64) :
    Writes (writeUint64 heap (BitVec.ofNat 64 n)) (varint n) := by
  have hwrites : Writes (writeUint64 heap _) _ := writes_writeUint64 (BitVec.ofNat 64 n)
  rwa [BitVec.toNat_ofNat, Nat.mod_eq_of_lt h] at hwrites

theorem reads_size {n : Nat} (h : n < 2 ^ 64) :
    Reads (readUint64 host) (varint n) (fun size => size.toNat = n) := by
  have hreads : Reads (readUint64 host) _ _ := reads_readUint64 (BitVec.ofNat 64 n)
  rw [BitVec.toNat_ofNat, Nat.mod_eq_of_lt h] at hreads
  intro ba before after hholds
  obtain ⟨_, ba', hread, rfl, h'⟩ := hreads hholds
  refine ⟨_, ba', hread, ?_, h'⟩
  change (BitVec.ofNat 64 n).toNat = n
  rw [BitVec.toNat_ofNat, Nat.mod_eq_of_lt h]

end Varint

section StringVint

def stringBytes (value : List UInt8) : List UInt8 := varint value.length ++ value

variable {value : List UInt8}

theorem length_stringBytes (value : List UInt8) : (stringBytes value).length ≤ value.length + 10 := by
  rw [stringBytes, List.length_append, Nat.add_comm]
  exact Nat.add_le_add_left (length_varint _) _

theorem writes_writeStringVint (h : value.length < 2 ^ 63) :
    Writes (writeStringVint heap value) (stringBytes value) :=
  (writes_size (Nat.lt_trans h (by decide))).bind (writes_write heap value)

/-- The characters of a string, once its length is known. -/
theorem reads_resized (h : value.length < 2 ^ 63) {len : Nat} (hlen : len = value.length) :
    Reads (fun ba => do
      let str ← resize len
      ba.read str.length) value (· = value) := by
  have hresize : resize len = .ok (List.replicate value.length 0) := by
    rw [hlen, resize, if_pos h]
  simp only [hresize]
  change Reads (fun ba => ba.read (List.replicate value.length 0).length) value (· = value)
  rw [List.length_replicate]
  exact reads_read value

theorem reads_readStringVint (h : value.length < 2 ^ 63) :
    Reads (readStringVint host) (stringBytes value) (· = value) :=
  (reads_size (Nat.lt_trans h (by decide))).bind fun _ hlen => reads_resized h hlen

end StringVint

end ByteArray

end AsyncRPC
