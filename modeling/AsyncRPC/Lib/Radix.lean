import Mathlib.Data.BitVec
import Mathlib.Tactic.Ring

/-!
# Numbers as bytes

Little-endian words in base 256, and base 128 with a continuation bit on every byte but the last.
The signed form of base 128 first folds the sign into the lowest bit.
-/

namespace Radix

/-- The lowest `n` bytes of `v`, least significant first. -/
def leBytes : Nat → Nat → List UInt8
  | 0, _ => []
  | n + 1, v => UInt8.ofNat v :: leBytes n (v / 256)

def ofLE : List UInt8 → Nat
  | [] => 0
  | b :: bs => b.toNat + 256 * ofLE bs

@[simp] theorem length_leBytes (n v : Nat) : (leBytes n v).length = n := by
  induction n generalizing v with
  | zero => rfl
  | succ n ih => rw [leBytes, List.length_cons, ih]

theorem ofLE_leBytes (n v : Nat) : ofLE (leBytes n v) = v % 256 ^ n := by
  induction n generalizing v with
  | zero => rw [leBytes, ofLE, Nat.pow_zero, Nat.mod_one]
  | succ n ih =>
      have hhead : (UInt8.ofNat v).toNat = v % 256 := UInt8.toNat_ofNat'
      rw [leBytes, ofLE, ih, hhead, Nat.pow_succ, Nat.mul_comm (256 ^ n), Nat.mod_mul]

theorem leBytes_ofLE (bs : List UInt8) : leBytes bs.length (ofLE bs) = bs := by
  induction bs with
  | nil => rfl
  | cons b bs ih =>
      have hdiv : (b.toNat + 256 * ofLE bs) / 256 = ofLE bs := by
        rw [Nat.add_mul_div_left _ _ (by decide), Nat.div_eq_of_lt b.toNat_lt, Nat.zero_add]
      have hhead : UInt8.ofNat (b.toNat + 256 * ofLE bs) = b := by
        apply UInt8.toNat_inj.mp
        rw [UInt8.toNat_ofNat', Nat.add_mul_mod_self_left]
        exact Nat.mod_eq_of_lt b.toNat_lt
      rw [ofLE, List.length_cons, leBytes, hdiv, hhead, ih]

theorem ofLE_lt (bs : List UInt8) : ofLE bs < 256 ^ bs.length := by
  have hmod := ofLE_leBytes bs.length (ofLE bs)
  rw [leBytes_ofLE] at hmod
  rw [hmod]
  exact Nat.mod_lt _ (Nat.pow_pos (by decide))

/-- The bytes of an `n`-byte word in the other order. -/
def byteSwap (n v : Nat) : Nat := ofLE (leBytes n v).reverse

theorem byteSwap_lt (n v : Nat) : byteSwap n v < 256 ^ n := by
  have hlt := ofLE_lt (leBytes n v).reverse
  rwa [List.length_reverse, length_leBytes] at hlt

theorem byteSwap_ofLE_reverse (bs : List UInt8) : byteSwap bs.length (ofLE bs.reverse) = ofLE bs := by
  have hbytes := leBytes_ofLE bs.reverse
  rw [List.length_reverse] at hbytes
  rw [byteSwap, hbytes, List.reverse_reverse]

theorem byteSwap_byteSwap (n v : Nat) : byteSwap n (byteSwap n v) = v % 256 ^ n := by
  have hswap := byteSwap_ofLE_reverse (leBytes n v)
  rw [length_leBytes, ofLE_leBytes] at hswap
  exact hswap

section Bits

theorem testBit_leBytes (n v i k : Nat) :
    ((leBytes n v).getD i 0).toNat.testBit k
      = (decide (i < n) && decide (k < 8) && v.testBit (8 * i + k)) := by
  induction n generalizing v i with
  | zero => simp [leBytes]
  | succ n ih =>
      cases i with
      | zero =>
          have hbyte : (UInt8.ofNat v).toNat = v % 2 ^ 8 := UInt8.toNat_ofNat'
          rw [leBytes, List.getD_cons_zero, hbyte, Nat.testBit_mod_two_pow, Nat.mul_zero,
            Nat.zero_add, decide_eq_true (Nat.succ_pos n), Bool.true_and]
      | succ i =>
          have hshift : (v / 256).testBit (8 * i + k) = v.testBit (8 * (i + 1) + k) := by
            rw [show (256 : Nat) = 2 ^ 8 from rfl, Nat.testBit_div_two_pow]
            congr 1
            omega
          rw [leBytes, List.getD_cons_succ, ih, hshift]
          simp only [Nat.add_lt_add_iff_right]

theorem testBit_ofLE (bs : List UInt8) (j : Nat) :
    (ofLE bs).testBit j = (bs.getD (j / 8) 0).toNat.testBit (j % 8) := by
  induction bs generalizing j with
  | nil => simp [ofLE]
  | cons b bs ih =>
      have hb : b.toNat < 2 ^ 8 := b.toNat_lt
      rw [ofLE, Nat.add_comm, show (256 : Nat) = 2 ^ 8 from rfl,
        Nat.testBit_two_pow_mul_add _ hb]
      rcases Nat.lt_or_ge j 8 with hlow | hhigh
      · rw [if_pos hlow, Nat.div_eq_of_lt hlow, Nat.mod_eq_of_lt hlow, List.getD_cons_zero]
      · obtain ⟨i, rfl⟩ := Nat.exists_eq_add_of_le hhigh
        rw [if_neg (Nat.not_lt.mpr hhigh), ih, Nat.add_sub_cancel_left, Nat.add_mod_left,
          Nat.add_div_left i (by decide), List.getD_cons_succ]

/-- The bytes change places, the bits of each stay where they are. -/
theorem testBit_byteSwap {n j : Nat} (v : Nat) (hj : j < 8 * n) :
    (byteSwap n v).testBit j = v.testBit (8 * (n - 1 - j / 8) + j % 8) := by
  have hplace : j / 8 < (leBytes n v).length := by
    rw [length_leBytes]
    omega
  have hreverse : (leBytes n v).reverse.getD (j / 8) 0 = (leBytes n v).getD (n - 1 - j / 8) 0 := by
    rw [List.getD_eq_getElem?_getD, List.getElem?_reverse hplace, length_leBytes,
      ← List.getD_eq_getElem?_getD]
  rw [byteSwap, testBit_ofLE, hreverse, testBit_leBytes, decide_eq_true (by omega),
    decide_eq_true (Nat.mod_lt j (by decide)), Bool.true_and, Bool.true_and]

end Bits

/-- Base 128, least significant digit first, in at most `room` bytes. -/
def digits : Nat → Nat → Option (List UInt8)
  | 0, _ => none
  | room + 1, v =>
      if 0x80 ≤ v then (digits room (v / 128)).map (UInt8.ofNat (v % 128 + 128) :: ·)
      else some [UInt8.ofNat v]

theorem digits_isSome {room v : Nat} (h : v < 128 ^ (room + 1)) :
    (digits (room + 1) v).isSome = true := by
  induction room generalizing v with
  | zero =>
      rw [digits, if_neg (by simpa using h)]
      rfl
  | succ room ih =>
      rw [digits]
      split
      · rw [Option.isSome_map]
        apply ih
        rw [Nat.div_lt_iff_lt_mul (by decide)]
        rwa [Nat.pow_succ] at h
      · rfl

theorem length_digits {room v : Nat} {bs : List UInt8} (h : digits room v = some bs) :
    bs.length ≤ room := by
  induction room generalizing v bs with
  | zero => cases h
  | succ room ih =>
      rw [digits] at h
      split at h
      · obtain ⟨rest, hrest, rfl⟩ := Option.map_eq_some_iff.mp h
        exact Nat.succ_le_succ (ih hrest)
      · cases h
        exact Nat.succ_le_succ (Nat.zero_le room)

theorem digits_mono {room v : Nat} {bs : List UInt8} (h : digits room v = some bs) :
    digits (room + 1) v = some bs := by
  induction room generalizing v bs with
  | zero => cases h
  | succ room ih =>
      rw [digits] at h ⊢
      split at h
      · next hlarge =>
        rw [if_pos hlarge]
        obtain ⟨rest, hrest, rfl⟩ := Option.map_eq_some_iff.mp h
        rw [ih hrest]
        rfl
      · next hsmall => rw [if_neg hsmall, ← h]

section Base128

/-- The number base-128 digits stand for, whatever their continuation bits say. -/
def sum128 (bs : List UInt8) : Nat :=
  (bs.mapIdx fun i b => (b &&& 0x7F).toNat * 2 ^ (7 * i)).sum

/-- Every byte but the last says that another one follows. -/
def Terminated (bs : List UInt8) : Prop :=
  ∃ init last, bs = init ++ [last] ∧ (∀ b ∈ init, 0x80 ≤ b) ∧ last < 0x80

/-- `bs` is a base-128 encoding of `v`, not necessarily the shortest one. -/
structure Encodes (bs : List UInt8) (v : Nat) : Prop where
  terminated : Terminated bs
  value : sum128 bs = v

theorem toNat_and_0x7F (b : UInt8) : (b &&& 0x7F).toNat = b.toNat % 128 := by
  rw [UInt8.toNat_and]
  exact Nat.and_two_pow_sub_one_eq_mod b.toNat 7

theorem sum_mapIdx_shift (f : UInt8 → Nat) (bs : List UInt8) (k : Nat) :
    (bs.mapIdx fun i b => f b * 2 ^ (7 * (i + k))).sum
      = 2 ^ (7 * k) * (bs.mapIdx fun i b => f b * 2 ^ (7 * i)).sum := by
  induction bs generalizing k with
  | nil => simp
  | cons b bs ih =>
      have hnext : (bs.mapIdx fun i b => f b * 2 ^ (7 * (i + 1 + k))).sum
          = 2 ^ (7 * k) * (bs.mapIdx fun i b => f b * 2 ^ (7 * (i + 1))).sum := by
        calc (bs.mapIdx fun i b => f b * 2 ^ (7 * (i + 1 + k))).sum
            = (bs.mapIdx fun i b => f b * 2 ^ (7 * (i + (k + 1)))).sum := by
              simp only [Nat.add_assoc, Nat.add_comm 1 k]
          _ = 2 ^ (7 * k) * (2 ^ (7 * 1) * (bs.mapIdx fun i b => f b * 2 ^ (7 * i)).sum) := by
              rw [ih, Nat.mul_succ, Nat.pow_add, Nat.mul_one, Nat.mul_assoc]
          _ = 2 ^ (7 * k) * (bs.mapIdx fun i b => f b * 2 ^ (7 * (i + 1))).sum := by rw [ih 1]
      rw [List.mapIdx_cons, List.mapIdx_cons, List.sum_cons, List.sum_cons, hnext, Nat.zero_add,
        Nat.mul_zero, Nat.pow_zero, Nat.mul_one, Nat.mul_add, Nat.mul_comm (f b)]

@[simp] theorem sum128_nil : sum128 [] = 0 := rfl

@[simp] theorem sum128_cons (b : UInt8) (bs : List UInt8) :
    sum128 (b :: bs) = b.toNat % 128 + 128 * sum128 bs := by
  have hshift := sum_mapIdx_shift (fun b => (b &&& 0x7F).toNat) bs 1
  rw [sum128, List.mapIdx_cons, List.sum_cons, hshift, Nat.mul_zero, Nat.pow_zero, Nat.mul_one,
    toNat_and_0x7F]
  rfl

theorem not_terminated_nil : ¬ Terminated [] := by
  rintro ⟨init, last, h, -⟩
  exact List.append_ne_nil_of_right_ne_nil init (List.cons_ne_nil last []) h.symm

theorem terminated_cons {b : UInt8} {bs : List UInt8} :
    Terminated (b :: bs) ↔ b < 0x80 ∧ bs = [] ∨ 0x80 ≤ b ∧ Terminated bs := by
  constructor
  · rintro ⟨init, last, h, hinit, hlast⟩
    cases init with
    | nil =>
        cases h
        exact Or.inl ⟨hlast, rfl⟩
    | cons first init =>
        cases h
        exact Or.inr ⟨hinit b List.mem_cons_self, init, last, rfl,
          fun b' hb' => hinit b' (List.mem_cons_of_mem b hb'), hlast⟩
  · rintro (⟨hb, rfl⟩ | ⟨hb, init, last, rfl, hinit, hlast⟩)
    · exact ⟨[], b, rfl, fun b' hb' => absurd hb' List.not_mem_nil, hb⟩
    · exact ⟨b :: init, last, rfl, List.forall_mem_cons.mpr ⟨hb, hinit⟩, hlast⟩

/-- No terminated sequence goes on where another one ends. -/
theorem Terminated.eq_of_prefix {bs bs' : List UInt8} (h : Terminated bs) (h' : Terminated bs')
    (hbegins : bs <+: bs') : bs = bs' := by
  induction bs generalizing bs' with
  | nil => exact absurd h not_terminated_nil
  | cons b bs ih =>
      obtain ⟨rest, rfl⟩ := hbegins
      rw [List.cons_append] at h' ⊢
      rcases terminated_cons.mp h with ⟨hb, rfl⟩ | ⟨hb, hbs⟩
      · rcases terminated_cons.mp h' with ⟨-, hrest⟩ | ⟨hb', -⟩
        · rw [hrest]
        · exact absurd hb (UInt8.not_lt.mpr hb')
      · rcases terminated_cons.mp h' with ⟨hb', -⟩ | ⟨-, hrest⟩
        · exact absurd hb' (UInt8.not_lt.mpr hb)
        · rw [← ih hbs hrest (List.prefix_append bs rest)]

theorem digits_encodes {room v : Nat} {bs : List UInt8} (h : digits room v = some bs) :
    Encodes bs v := by
  induction room generalizing v bs with
  | zero => cases h
  | succ room ih =>
      rw [digits] at h
      split at h
      · next hlarge =>
        obtain ⟨rest, hrest, rfl⟩ := Option.map_eq_some_iff.mp h
        obtain ⟨hterminated, hvalue⟩ := ih hrest
        have hbyte : (UInt8.ofNat (v % 128 + 128)).toNat = v % 128 + 128 := by
          rw [UInt8.toNat_ofNat', Nat.mod_eq_of_lt (by omega)]
        refine ⟨terminated_cons.mpr (Or.inr ⟨?_, hterminated⟩), ?_⟩
        · rw [UInt8.le_iff_toNat_le, hbyte]
          exact Nat.le_add_left 128 _
        · rw [sum128_cons, hbyte, hvalue, Nat.add_mod_right, Nat.mod_mod, Nat.mod_add_div]
      · next hsmall =>
        cases h
        have hbyte : (UInt8.ofNat v).toNat = v := by
          rw [UInt8.toNat_ofNat', Nat.mod_eq_of_lt (by omega)]
        refine ⟨terminated_cons.mpr (Or.inl ⟨?_, rfl⟩), ?_⟩
        · rw [UInt8.lt_iff_toNat_lt, hbyte]
          exact Nat.not_le.mp hsmall
        · rw [sum128_cons, sum128_nil, hbyte]
          omega

/-- Whatever else encodes the number has a digit more: its highest ones are zeros. -/
theorem digits_shortest {room v : Nat} {bs bs' : List UInt8} (h : digits room v = some bs)
    (h' : Encodes bs' v) (hne : bs' ≠ bs) : bs.length < bs'.length := by
  induction room generalizing v bs bs' with
  | zero => cases h
  | succ room ih =>
      obtain ⟨hterminated, hvalue⟩ := h'
      cases bs' with
      | nil => exact absurd hterminated not_terminated_nil
      | cons b rest' =>
          have hb := b.toNat_lt
          rw [sum128_cons] at hvalue
          rw [digits] at h
          rcases terminated_cons.mp hterminated with ⟨hlast, rfl⟩ | ⟨hcontinue, hrest'⟩
          · -- one byte says it all, so the loop stops at once with the same byte
            rw [UInt8.lt_iff_toNat_lt] at hlast
            change b.toNat < 128 at hlast
            rw [sum128_nil] at hvalue
            have hv : v = b.toNat := by omega
            rw [if_neg (by omega), hv, UInt8.ofNat_toNat] at h
            cases h
            exact absurd rfl hne
          · rw [UInt8.le_iff_toNat_le] at hcontinue
            change 128 ≤ b.toNat at hcontinue
            split at h
            · obtain ⟨rest, hrest, rfl⟩ := Option.map_eq_some_iff.mp h
              have hhead : UInt8.ofNat (v % 128 + 128) = b := by
                apply UInt8.toNat_inj.mp
                rw [UInt8.toNat_ofNat', Nat.mod_eq_of_lt (by omega)]
                omega
              rw [hhead] at hne ⊢
              have hdiv : sum128 rest' = v / 128 := by omega
              exact Nat.succ_lt_succ (ih hrest ⟨hrest', hdiv⟩ fun heq => hne (by rw [heq]))
            · cases h
              cases rest' with
              | nil => exact absurd hrest' not_terminated_nil
              | cons => simp

end Base128

section Accumulate

/-- Putting a digit above what has been read so far adds it in its place. -/
theorem or_mul_two_pow_mod {acc d i w : Nat} (hacc : acc < 2 ^ i) (hw : acc < 2 ^ w) :
    acc ||| (d * 2 ^ i % 2 ^ w) = (acc + d * 2 ^ i) % 2 ^ w := by
  rcases Nat.lt_or_ge i w with hi | hi
  · obtain ⟨k, rfl⟩ := Nat.exists_eq_add_of_le (Nat.le_of_lt hi)
    have hplace : d * 2 ^ i % 2 ^ (i + k) = 2 ^ i * (d % 2 ^ k) := by
      rw [Nat.mul_comm, Nat.pow_add, Nat.mul_mod_mul_left]
    have hsum : 2 ^ i * (d % 2 ^ k) + acc < 2 ^ (i + k) := by
      have hdigit : d % 2 ^ k + 1 ≤ 2 ^ k := Nat.mod_lt _ (Nat.two_pow_pos _)
      calc 2 ^ i * (d % 2 ^ k) + acc
          < 2 ^ i * (d % 2 ^ k) + 2 ^ i := Nat.add_lt_add_left hacc _
        _ = 2 ^ i * (d % 2 ^ k + 1) := by ring
        _ ≤ 2 ^ i * 2 ^ k := Nat.mul_le_mul_left _ hdigit
        _ = 2 ^ (i + k) := by ring
    calc acc ||| (d * 2 ^ i % 2 ^ (i + k))
        = 2 ^ i * (d % 2 ^ k) + acc := by
          rw [hplace, Nat.or_comm, Nat.two_pow_add_eq_or_of_lt hacc]
      _ = (2 ^ i * (d % 2 ^ k) + acc) % 2 ^ (i + k) := (Nat.mod_eq_of_lt hsum).symm
      _ = (acc + d * 2 ^ i) % 2 ^ (i + k) := by
          rw [← hplace, Nat.mod_add_mod, Nat.add_comm]
  · have hgone : d * 2 ^ i % 2 ^ w = 0 :=
      Nat.mod_eq_zero_of_dvd (Dvd.dvd.mul_left (Nat.pow_dvd_pow 2 hi) _)
    rw [hgone, Nat.or_zero, Nat.add_mod, hgone, Nat.add_zero, Nat.mod_mod, Nat.mod_eq_of_lt hw]

theorem toNat_or_shiftLeft {w : Nat} {acc d : BitVec w} {i : Nat} (hacc : acc.toNat < 2 ^ i) :
    (acc ||| (d <<< i)).toNat = (acc.toNat + d.toNat * 2 ^ i) % 2 ^ w := by
  rw [BitVec.toNat_or, BitVec.toNat_shiftLeft, Nat.shiftLeft_eq]
  exact or_mul_two_pow_mod hacc acc.isLt

end Accumulate

section Zigzag

variable {w : Nat}

/-- Shift left and fold the sign into every bit. -/
def zigzag (v : BitVec w) : BitVec w := (v <<< 1) ^^^ v.sshiftRight (w - 1)

def unzigzag (v : BitVec w) : BitVec w := (v >>> 1) ^^^ -(v &&& 1#w)

theorem getLsbD_neg_and_one (v : BitVec w) {i : Nat} (hi : i < w) :
    (-(v &&& 1#w)).getLsbD i = v.getLsbD 0 := by
  have hand : v &&& 1#w = if v.getLsbD 0 then 1#w else 0#w := by
    ext j hj
    rw [BitVec.getElem_and, BitVec.getElem_one]
    cases hbit : v.getLsbD 0 <;> cases j <;> simp_all [BitVec.getLsbD_eq_getElem]
  rw [hand]
  split
  · next hbit => rw [BitVec.neg_one_eq_allOnes, BitVec.getLsbD_allOnes, hbit, decide_eq_true hi]
  · next hbit => rw [BitVec.neg_zero, BitVec.getLsbD_zero, Bool.eq_false_iff.mpr hbit]

theorem getLsbD_zigzag (v : BitVec w) {i : Nat} (hi : i < w) :
    (zigzag v).getLsbD i = ((!decide (i < 1) && v.getLsbD (i - 1)) ^^ v.msb) := by
  have hsign : (v.sshiftRight (w - 1)).getLsbD i = v.msb := by
    rw [BitVec.getLsbD_sshiftRight, decide_eq_false (Nat.not_le_of_lt hi), Bool.not_false,
      Bool.true_and]
    split
    · next hlast =>
      have hzero : i = 0 := by omega
      rw [hzero, Nat.add_zero, BitVec.msb_eq_getLsbD_last]
    · rfl
  rw [zigzag, BitVec.getLsbD_xor, hsign, BitVec.getLsbD_shiftLeft, decide_eq_true hi, Bool.true_and]

theorem unzigzag_zigzag (v : BitVec w) : unzigzag (zigzag v) = v := by
  apply BitVec.eq_of_getLsbD_eq
  intro i hi
  have hlow : (zigzag v).getLsbD 0 = v.msb := by
    rw [getLsbD_zigzag v (Nat.zero_lt_of_lt hi)]
    simp
  rw [unzigzag, BitVec.getLsbD_xor, getLsbD_neg_and_one _ hi, hlow, BitVec.getLsbD_ushiftRight]
  rcases Nat.lt_or_ge (1 + i) w with hnext | hlast
  · rw [getLsbD_zigzag v hnext]
    simp
  · have hi' : i = w - 1 := by omega
    rw [BitVec.getLsbD_of_ge _ _ hlast, Bool.false_xor, hi', BitVec.msb_eq_getLsbD_last]

end Zigzag

end Radix
