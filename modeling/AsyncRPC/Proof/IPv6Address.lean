import AsyncRPC.IPv6Address
import AsyncRPC.Lib.Separated

/-!
# The text an IPv6 address is printed as

It is one of the texts of the address as the cast shows it, and of no other address. The loop has at every
moment written the groups up to the first zeros, or these and, behind `::`, those from the next group on.
-/

namespace AsyncRPC.IPv6Address

open Radix Subnet Separated

section Digits

theorem hexDigit_digitChar : ∀ d < 16, hexDigit (UInt8.ofNat (Nat.digitChar d).toNat) = some d := by
  decide

theorem hexNumber_append (n : Nat) (a b : List UInt8) :
    hexNumber n (a ++ b) = (hexNumber n a).bind fun m => hexNumber m b := by
  induction a generalizing n with
  | nil => rfl
  | cons c a ih =>
      rw [List.cons_append, hexNumber, hexNumber]
      cases hexDigit c with
      | none => rfl
      | some d => exact ih _

theorem hexNumber_hexadecimal (n : Nat) : hexNumber 0 (hexadecimal n) = some n := by
  induction n using Nat.strongRecOn with
  | ind n ih =>
      have hlast : ∀ m d : Nat, d < 16 →
          hexNumber m [UInt8.ofNat (Nat.digitChar d).toNat] = some (16 * m + d) := by
        intro m d hd
        rw [hexNumber, hexDigit_digitChar d hd, Option.bind_some, hexNumber]
      rw [hexadecimal]
      rcases Nat.lt_or_ge n 16 with hsmall | hlarge
      · rw [Nat.toDigits_of_lt_base hsmall, List.map_singleton, hlast 0 n hsmall, Nat.mul_zero,
          Nat.zero_add]
      · have hdigits := ih (n / 16) (Nat.div_lt_self (by omega) (by decide))
        rw [hexadecimal] at hdigits
        rw [Nat.toDigits_of_base_le (by decide) hlarge, List.map_append, hexNumber_append, hdigits,
          Option.bind_some, List.map_singleton, hlast _ _ (Nat.mod_lt n (by decide)),
          Nat.div_add_mod]

theorem hexDigit_of_hexNumber {n m : Nat} {text : List UInt8} (h : hexNumber n text = some m) {c : UInt8}
    (hc : c ∈ text) : hexDigit c ≠ none := by
  induction text generalizing n with
  | nil => exact absurd hc List.not_mem_nil
  | cons c' text ih =>
      rw [hexNumber] at h
      obtain ⟨d, hd, hrest⟩ := Option.bind_eq_some_iff.mp h
      rcases List.mem_cons.mp hc with rfl | hc
      · rw [hd]
        exact Option.some_ne_none d
      · exact ih hrest hc

theorem hexadecimal_ne_nil (n : Nat) : hexadecimal n ≠ [] := by
  rw [hexadecimal, Ne, List.map_eq_nil_iff]
  exact Nat.toDigits_ne_nil

theorem hexGroup_hexadecimal {n : Nat} (h : n < 16 ^ 4) : hexGroup (hexadecimal n) = some n := by
  have hlength : (hexadecimal n).length ≤ 4 := by
    rw [hexadecimal, List.length_map]
    exact (Nat.length_toDigits_le_iff (by decide) (by decide)).mpr h
  have hshape : ¬ (hexadecimal n = [] ∨ 4 < (hexadecimal n).length) := by
    rintro (hnil | hlong)
    · exact hexadecimal_ne_nil n hnil
    · exact Nat.not_lt.mpr hlength hlong
  rw [hexGroup, if_neg hshape, hexNumber_hexadecimal]

theorem hexGroup_eq_some {piece : List UInt8} {n : Nat} (h : hexGroup piece = some n) :
    piece ≠ [] ∧ ∀ c ∈ piece, hexDigit c ≠ none := by
  rw [hexGroup] at h
  split at h
  · cases h
  · next hshape => exact ⟨fun hnil => hshape (Or.inl hnil), fun c hc => hexDigit_of_hexNumber h hc⟩

/-- The digits of a decimal number are bytes from `0` to `9`. -/
theorem toNat_digit {n : Nat} {digit : Char} (h : digit ∈ Nat.toDigits 10 n) :
    (UInt8.ofNat digit.toNat).toNat = digit.toNat ∧ 48 ≤ digit.toNat ∧ digit.toNat ≤ 57 := by
  have hrange := Nat.isDigit_of_mem_toDigits (by decide) (by decide) h
  rw [Char.isDigit, Bool.and_eq_true, decide_eq_true_eq, decide_eq_true_eq] at hrange
  have hlow : 48 ≤ digit.toNat := hrange.1
  have hhigh : digit.toNat ≤ 57 := hrange.2
  exact ⟨by rw [UInt8.toNat_ofNat', Nat.mod_eq_of_lt (by omega)], hlow, hhigh⟩

theorem hexDigit_of_mem_decimal {n : Nat} {c : UInt8} (hc : c ∈ decimal n) : hexDigit c ≠ none := by
  obtain ⟨digit, hdigit, rfl⟩ := List.mem_map.mp hc
  obtain ⟨hbyte, hlow, hhigh⟩ := toNat_digit hdigit
  have hrange : 48 ≤ UInt8.ofNat digit.toNat ∧ UInt8.ofNat digit.toNat ≤ 57 := by
    rw [UInt8.le_iff_toNat_le, UInt8.le_iff_toNat_le, hbyte]
    exact ⟨hlow, hhigh⟩
  rw [hexDigit, if_pos hrange]
  exact Option.some_ne_none _

theorem not_mem_decimal {c : UInt8} (h : hexDigit c = none) (n : Nat) : c ∉ decimal n :=
  fun hc => hexDigit_of_mem_decimal hc h

theorem decimal_ne_nil (n : Nat) : decimal n ≠ [] := by
  rw [decimal, Ne, List.map_eq_nil_iff]
  exact Nat.toDigits_ne_nil

theorem decimal_injective {m n : Nat} (h : decimal m = decimal n) : m = n := by
  have hchars : ∀ n : Nat, (decimal n).map (fun c => Char.ofNat c.toNat) = Nat.toDigits 10 n := by
    intro n
    calc (decimal n).map (fun c => Char.ofNat c.toNat)
        = (Nat.toDigits 10 n).map id := by
          rw [decimal, List.map_map]
          apply List.map_congr_left
          intro digit hdigit
          rw [Function.comp_apply, (toNat_digit hdigit).1, Char.ofNat_toNat, id]
      _ = Nat.toDigits 10 n := List.map_id _
  rw [← Nat.ofDigitChars_toDigits (b := 10) (n := m) (by decide) (by decide), ← hchars m, h, hchars n,
    Nat.ofDigitChars_toDigits (by decide) (by decide)]

end Digits

section Text

variable {pieces pieces' : List (List UInt8)} {groups groups' : List Nat} {text : List UInt8}

theorem dotted_pieces (a b c d : UInt8) :
    Pieces dot [decimal a.toNat, decimal b.toNat, decimal c.toNat, decimal d.toNat] := by
  intro octet hoctet
  have hdecimal : ∃ n, octet = decimal n := by
    simp only [List.mem_cons, List.not_mem_nil, or_false] at hoctet
    rcases hoctet with rfl | rfl | rfl | rfl
    · exact ⟨_, rfl⟩
    · exact ⟨_, rfl⟩
    · exact ⟨_, rfl⟩
    · exact ⟨_, rfl⟩
  obtain ⟨n, rfl⟩ := hdecimal
  exact ⟨decimal_ne_nil n, not_mem_decimal rfl n⟩

theorem hexGroup_dotted (a b c d : UInt8) : hexGroup
    ([dot].intercalate [decimal a.toNat, decimal b.toNat, decimal c.toNat, decimal d.toNat]) = none := by
  rw [Option.eq_none_iff_forall_ne_some]
  intro n h
  refine (hexGroup_eq_some h).2 dot ?_ rfl
  rw [List.intercalate_cons_cons]
  simp

/-- What is read has something in every piece, and no other characters than these. -/
theorem Reads.legible (h : Reads pieces groups) :
    ∀ piece ∈ pieces, piece ≠ [] ∧ ∀ c ∈ piece, hexDigit c ≠ none ∨ c = dot := by
  induction h with
  | nil => exact fun piece hpiece => absurd hpiece List.not_mem_nil
  | group hgroup _ ih =>
      intro piece hpiece
      rcases List.mem_cons.mp hpiece with rfl | hpiece
      · obtain ⟨hne, hdigits⟩ := hexGroup_eq_some hgroup
        exact ⟨hne, fun c hc => Or.inl (hdigits c hc)⟩
      · exact ih piece hpiece
  | @dotted a b c d =>
      intro piece hpiece
      rw [List.mem_singleton] at hpiece
      subst hpiece
      refine ⟨intercalate_ne_nil (decimal_ne_nil _), fun c hc => ?_⟩
      rcases mem_intercalate hc with hdot | ⟨octet, hoctet, hc⟩
      · exact Or.inr hdot
      · simp only [List.mem_cons, List.not_mem_nil, or_false] at hoctet
        rcases hoctet with rfl | rfl | rfl | rfl <;> exact Or.inl (hexDigit_of_mem_decimal hc)

theorem Reads.separated (h : Reads pieces groups) : Pieces colon pieces := by
  intro piece hpiece
  obtain ⟨hne, hlegible⟩ := h.legible piece hpiece
  refine ⟨hne, fun hcolon => ?_⟩
  rcases hlegible colon hcolon with hdigit | hdot
  · exact hdigit rfl
  · cases hdot

theorem Reads.unique (h : Reads pieces groups) (h' : Reads pieces groups') : groups = groups' := by
  induction h generalizing groups' with
  | nil =>
      cases h'
      rfl
  | group hgroup hrest ih =>
      cases h' with
      | group hgroup' hrest' =>
          rw [hgroup] at hgroup'
          cases hgroup'
          rw [ih hrest']
      | dotted =>
          rw [hexGroup_dotted] at hgroup
          cases hgroup
  | @dotted a b c d =>
      generalize hpieces : [[dot].intercalate [decimal a.toNat, decimal b.toNat, decimal c.toNat,
        decimal d.toNat]] = pieces at h'
      cases h' with
      | nil => cases hpieces
      | group hgroup' =>
          cases hpieces
          rw [hexGroup_dotted] at hgroup'
          cases hgroup'
      | @dotted a' b' c' d' =>
          have hoctets := (dotted_pieces a b c d).unique (dotted_pieces a' b' c' d')
            (List.cons.inj hpieces).1
          simp only [List.cons.injEq, and_true] at hoctets
          obtain ⟨ha, hb, hc, hd⟩ := hoctets
          rw [decimal_injective ha, decimal_injective hb, decimal_injective hc, decimal_injective hd]

/-- The groups in front of `::` are read like the others. -/
theorem reads_of_map (h : pieces.map hexGroup = groups.map some) : Reads pieces groups := by
  induction pieces generalizing groups with
  | nil =>
      rw [List.map_nil] at h
      rw [List.map_eq_nil_iff.mp h.symm]
      exact .nil
  | cons piece pieces ih =>
      cases groups with
      | nil => cases h
      | cons n groups =>
          obtain ⟨hgroup, hrest⟩ := List.cons_eq_cons.mp h
          exact .group hgroup (ih hrest)

theorem Reads.not_mem {c : UInt8} (h : Reads pieces groups) (hdigit : hexDigit c = none) (hdot : c ≠ dot)
    (hcolon : c ≠ colon) : c ∉ [colon].intercalate pieces := by
  intro hc
  rcases mem_intercalate hc with rfl | ⟨piece, hpiece, hc⟩
  · exact hcolon rfl
  · rcases (h.legible piece hpiece).2 c hc with hlegible | rfl
    · exact hlegible hdigit
    · exact hdot rfl

theorem Denotes.not_mem {c : UInt8} (h : Denotes text groups) (hdigit : hexDigit c = none) (hdot : c ≠ dot)
    (hcolon : c ≠ colon) : c ∉ text := by
  cases h with
  | full hreads hlength => exact hreads.not_mem hdigit hdot hcolon
  | compressed hfront hback hzeros hlength =>
      rw [List.mem_append, List.mem_cons, List.mem_cons]
      rintro (hc | rfl | rfl | hc)
      · exact (reads_of_map hfront).not_mem hdigit hdot hcolon hc
      · exact hcolon rfl
      · exact hcolon rfl
      · exact hback.not_mem hdigit hdot hcolon hc

theorem Denotes.not_mem_closeBracket (h : Denotes text groups) : closeBracket ∉ text :=
  h.not_mem rfl (by decide) (by decide)

theorem Denotes.ne_nil (h : Denotes text groups) : text ≠ [] := by
  cases h with
  | full hreads hlength =>
      cases hreads with
      | nil => cases hlength
      | group hgroup => exact intercalate_ne_nil (hexGroup_eq_some hgroup).1
      | dotted => cases hlength
  | compressed => exact List.append_ne_nil_of_right_ne_nil _ (List.cons_ne_nil _ _)

/-- No text is a text of two addresses. -/
theorem Denotes.unique (h : Denotes text groups) (h' : Denotes text groups') : groups = groups' := by
  generalize htext : text = text' at h'
  cases h with
  | full hreads hlength =>
      cases h' with
      | full hreads' hlength' =>
          rw [hreads.separated.unique hreads'.separated htext] at hreads
          exact hreads.unique hreads'
      | compressed => exact absurd htext (hreads.separated.plain.apart _ _)
  | @compressed front back before after zeros hfront hback hzeros hlength =>
      cases h' with
      | full hreads' => exact absurd htext.symm (hreads'.separated.plain.apart _ _)
      | @compressed front' back' before' after' zeros' hfront' hback' hzeros' hlength' =>
          have hreads := reads_of_map hfront
          have hreads' := reads_of_map hfront'
          obtain ⟨hfronts, hbacks⟩ :=
            hreads'.separated.plain.eq_of_doubled hback'.separated.plain htext.symm
          rw [hreads.separated.unique hreads'.separated hfronts] at hreads
          rw [hback.separated.unique hback'.separated hbacks] at hback
          obtain rfl := hreads.unique hreads'
          obtain rfl := hback.unique hback'
          obtain rfl : zeros = zeros' := by omega
          rfl

theorem Denotes.atMostOneDoubled (h : Denotes text groups) : AtMostOneDoubled text := by
  intro a b a' b' hab hab'
  cases h with
  | full hreads hlength => exact absurd hab (hreads.separated.plain.apart a b)
  | compressed hfront hback hzeros hlength =>
      have hplain := (reads_of_map hfront).separated.plain
      obtain ⟨rfl, rfl⟩ := hplain.eq_of_doubled hback.separated.plain hab
      obtain ⟨rfl, rfl⟩ := hplain.eq_of_doubled hback.separated.plain hab'
      exact ⟨rfl, rfl⟩

end Text

section Insert

variable {order host : ByteOrder} {addr : SockaddrIn6}

/-- The groups in the order and the byte order they are printed in. -/
def number (order host : ByteOrder) (addr : SockaddrIn6) (i : Nat) : Nat :=
  (networkToHost order (group host addr i)).toNat

def numbers (order host : ByteOrder) (addr : SockaddrIn6) (n : Nat) : List Nat :=
  (List.range n).map (number order host addr)

theorem numbers_succ (n : Nat) :
    numbers order host addr (n + 1) = numbers order host addr n ++ [number order host addr n] := by
  rw [numbers, List.range_succ, List.map_append, List.map_singleton, numbers]

theorem length_numbers (n : Nat) : (numbers order host addr n).length = n := by
  rw [numbers, List.length_map, List.length_range]

theorem lt_of_mem_numbers {n m : Nat} (h : m ∈ numbers order host addr n) : m < 16 ^ 4 := by
  obtain ⟨i, -, rfl⟩ := List.mem_map.mp h
  exact BitVec.isLt _

theorem toNat_networkToHost (value : BitVec 16) :
    (networkToHost order value).toNat = ByteOrder.value .big (order.bytes 2 value.toNat) := by
  cases order with
  | little =>
      have hlt : byteSwap 2 value.toNat < 2 ^ 16 := byteSwap_lt 2 value.toNat
      rw [networkToHost, BitVec.toNat_ofNat, Nat.mod_eq_of_lt hlt]
      rfl
  | big =>
      rw [networkToHost, ByteOrder.bytes, ByteOrder.value, List.reverse_reverse, ofLE_leBytes]
      exact (Nat.mod_eq_of_lt value.isLt).symm

theorem networkToHost_networkToHost (value : BitVec 16) :
    networkToHost order (networkToHost order value) = value := by
  cases order with
  | little =>
      have hlt : byteSwap 2 value.toNat < 2 ^ 16 := byteSwap_lt 2 value.toNat
      apply BitVec.eq_of_toNat_eq
      rw [networkToHost, networkToHost, BitVec.toNat_ofNat, BitVec.toNat_ofNat, Nat.mod_eq_of_lt hlt,
        byteSwap_byteSwap, Nat.mod_mod_of_dvd _ (by decide)]
      exact Nat.mod_eq_of_lt value.isLt
  | big => rfl

theorem networkToHost_zero : networkToHost order 0 = 0 := by
  cases order with
  | little => rfl
  | big => rfl

theorem group_eq_zero_iff (i : Nat) : group host addr i = 0 ↔ number order host addr i = 0 := by
  constructor
  · intro h
    rw [number, h, networkToHost_zero]
    rfl
  · intro h
    have hzero : networkToHost order (group host addr i) = 0 := BitVec.eq_of_toNat_eq h
    rw [← @networkToHost_networkToHost order (group host addr i), hzero, networkToHost_zero]

theorem bytes_value (host : ByteOrder) (bs : List UInt8) : host.bytes bs.length (host.value bs) = bs := by
  cases host with
  | little => exact leBytes_ofLE bs
  | big =>
      have hbytes := leBytes_ofLE bs.reverse
      rw [List.length_reverse] at hbytes
      rw [ByteOrder.bytes, ByteOrder.value, hbytes, List.reverse_reverse]

theorem bytes_of_ne (h : order ≠ host) (n v : Nat) : order.bytes n v = (host.bytes n v).reverse := by
  cases order with
  | little =>
      cases host with
      | little => exact absurd rfl h
      | big => exact (List.reverse_reverse _).symm
  | big =>
      cases host with
      | little => rfl
      | big => exact absurd rfl h

theorem bytes_byteSwap (host : ByteOrder) (n v : Nat) :
    host.bytes n (byteSwap n v) = (host.bytes n v).reverse := by
  have hswap : leBytes n (byteSwap n v) = (leBytes n v).reverse := by
    have hbytes := leBytes_ofLE (leBytes n v).reverse
    rwa [List.length_reverse, length_leBytes] at hbytes
  cases host with
  | little => exact hswap
  | big => exact congrArg List.reverse hswap

theorem getD_ofFn (bytes : Fin 16 → UInt8) {j : Nat} (hj : j < 16) :
    (List.ofFn bytes).getD j 0 = bytes ⟨j, hj⟩ := by
  rw [← List.getElem_eq_getD 0 (h := by rwa [List.length_ofFn]), List.getElem_ofFn]

/-- The two bytes of a group as they lie in memory. -/
theorem bytes_group {i : Nat} (hi : i < 8) :
    host.bytes 2 (group host addr i).toNat
      = [(List.ofFn addr.s6Addr).getD (2 * i) 0, (List.ofFn addr.s6Addr).getD (2 * i + 1) 0] := by
  have hlength : (List.ofFn addr.s6Addr).length = 16 := List.length_ofFn
  have hbytes : ((List.ofFn addr.s6Addr).drop (2 * i)).take 2
      = [(List.ofFn addr.s6Addr).getD (2 * i) 0, (List.ofFn addr.s6Addr).getD (2 * i + 1) 0] := by
    rw [List.drop_eq_getElem_cons (by omega), List.drop_eq_getElem_cons (by omega),
      List.getElem_eq_getD 0, List.getElem_eq_getD 0]
    rfl
  rw [group, hbytes, BitVec.toNat_ofNat]
  generalize (List.ofFn addr.s6Addr).getD (2 * i) 0 = x
  generalize (List.ofFn addr.s6Addr).getD (2 * i + 1) 0 = y
  have hx := x.toNat_lt
  have hy := y.toNat_lt
  have hlt : host.value [x, y] < 2 ^ 16 := by
    cases host with
    | little =>
        change x.toNat + 256 * (y.toNat + 256 * 0) < 2 ^ 16
        omega
    | big =>
        change y.toNat + 256 * (x.toNat + 256 * 0) < 2 ^ 16
        omega
  rw [Nat.mod_eq_of_lt hlt]
  exact bytes_value host [x, y]

theorem value_pair (x y : UInt8) : ByteOrder.value .big [x, y] = 256 * x.toNat + y.toNat := by
  change y.toNat + 256 * (x.toNat + 256 * 0) = 256 * x.toNat + y.toNat
  omega

/-- A cast that fits the memory takes the two bytes of a group as network order has them. -/
theorem number_eq {i : Nat} (hi : i < 8) :
    number order host addr i = 256 * ((List.ofFn (seen order host addr).s6Addr).getD (2 * i) 0).toNat
      + ((List.ofFn (seen order host addr).s6Addr).getD (2 * i + 1) 0).toNat := by
  rw [number, toNat_networkToHost, seen]
  by_cases hfits : order = host
  · rw [hfits, if_pos rfl, bytes_group hi, value_pair]
  · have hfirst : 2 * i + 1 - 2 * (2 * i % 2) = 2 * i + 1 := by omega
    have hsecond : 2 * i + 1 + 1 - 2 * ((2 * i + 1) % 2) = 2 * i := by omega
    rw [if_neg hfits, bytes_of_ne hfits, bytes_group hi, getD_ofFn _ (by omega), getD_ofFn _ (by omega),
      getD_ofFn _ (by omega), getD_ofFn _ (by omega)]
    simp only [swapped, hfirst, hsecond]
    exact value_pair _ _

theorem getPort_eq (order host : ByteOrder) (addr : SockaddrIn6) :
    getPort order addr = portOf host (seen order host addr) := by
  rw [getPort, toNat_networkToHost, portOf, seen]
  by_cases hfits : order = host
  · rw [hfits, if_pos rfl]
  · have hlt : byteSwap 2 addr.sin6Port.toNat < 2 ^ 16 := byteSwap_lt 2 addr.sin6Port.toNat
    rw [if_neg hfits, bytes_of_ne hfits, swapped, BitVec.toNat_ofNat, Nat.mod_eq_of_lt hlt,
      bytes_byteSwap]

/-- What the loop has written of these groups: no zeros in the midst of them yet, or one run of zeros. -/
inductive Written : List Nat → Printed → Prop
  | plain {front : List Nat} (zeros : Nat) : (∀ n ∈ front, n ≠ 0) →
      Written (front ++ List.replicate zeros 0)
        { text := [colon].intercalate (front.map hexadecimal)
          usedZeros := false }
  | compressed {front back : List Nat} {zeros : Nat} : 0 < zeros → back ≠ [] →
      Written (front ++ List.replicate zeros 0 ++ back)
        { text := [colon].intercalate (front.map hexadecimal) ++
            colon :: colon :: [colon].intercalate (back.map hexadecimal)
          usedZeros := true }

theorem insertGroup_skip {i : Nat} {os : Printed} (hzero : number order host addr i = 0)
    (hos : os.usedZeros = false) : insertGroup order host addr i os = os := by
  rw [insertGroup, if_pos ⟨(group_eq_zero_iff i).mpr hzero, by rw [hos]; exact Bool.false_ne_true⟩]

theorem insertGroup_first {os : Printed} (hnonzero : number order host addr 0 ≠ 0) :
    insertGroup order host addr 0 os
      = { os with text := os.text ++ hexadecimal (number order host addr 0) } := by
  rw [insertGroup, if_neg fun h => hnonzero ((group_eq_zero_iff 0).mp h.1)]
  rfl

/-- Behind a group that is not zero, or where `::` is written already. -/
theorem insertGroup_next {i : Nat} {os : Printed}
    (h : os.usedZeros = true ∨ number order host addr i ≠ 0 ∧ number order host addr (i + 1) ≠ 0) :
    insertGroup order host addr (i + 1) os =
      { os with text := os.text ++ colon :: hexadecimal (number order host addr (i + 1)) } := by
  have hshown : ¬ (group host addr (i + 1) = 0 ∧ ¬ os.usedZeros) := by
    rintro ⟨hzero, hunused⟩
    rcases h with hused | ⟨-, hnonzero⟩
    · exact hunused hused
    · exact hnonzero ((group_eq_zero_iff _).mp hzero)
  have hsingle : ¬ (i + 1 ≠ 0 ∧ group host addr (i + 1 - 1) = 0 ∧ ¬ os.usedZeros) := by
    rintro ⟨-, hzero, hunused⟩
    rcases h with hused | ⟨hnonzero, -⟩
    · exact hunused hused
    · exact hnonzero ((group_eq_zero_iff _).mp hzero)
  rw [insertGroup, if_neg hshown, if_neg hsingle]
  simp only [if_pos (Nat.add_one_ne_zero i), List.append_assoc, List.cons_append,
    List.nil_append, number]

/-- Behind the first zeros. -/
theorem insertGroup_doubled {i : Nat} {os : Printed} (hbefore : number order host addr i = 0)
    (hos : os.usedZeros = false) (h : number order host addr (i + 1) ≠ 0) :
    insertGroup order host addr (i + 1) os =
      { text := os.text ++ colon :: colon :: hexadecimal (number order host addr (i + 1))
        usedZeros := true } := by
  have hunused : ¬ os.usedZeros = true := by
    rw [hos]
    exact Bool.false_ne_true
  have hzero : group host addr (i + 1 - 1) = 0 := (group_eq_zero_iff i).mpr hbefore
  rw [insertGroup, if_neg fun hskip => h ((group_eq_zero_iff _).mp hskip.1),
    if_pos ⟨Nat.add_one_ne_zero i, hzero, hunused⟩]
  simp only [if_pos (Nat.add_one_ne_zero i), List.append_assoc, List.cons_append,
    List.nil_append, number]

/-- The last group is the last of the zeros, where there are any. -/
theorem eq_zero_of_zeros {ns front : List Nat} {n zeros : Nat}
    (h : ns ++ [n] = front ++ List.replicate (zeros + 1) 0) : n = 0 := by
  rw [List.replicate_succ', ← List.append_assoc] at h
  exact (List.cons.inj (List.append_inj_right' h rfl)).1

/-- One round. -/
theorem Written.round {i : Nat} {os : Printed} (h : Written (numbers order host addr i) os) :
    Written (numbers order host addr (i + 1)) (insertGroup order host addr i os) := by
  rw [numbers_succ]
  generalize hns : numbers order host addr i = ns at h
  cases h with
  | @plain front zeros hfront =>
      by_cases hzero : number order host addr i = 0
      · rw [insertGroup_skip hzero rfl, hzero, List.append_assoc, ← List.replicate_succ']
        exact .plain (zeros + 1) hfront
      cases i with
      | zero =>
          obtain ⟨rfl, hzeros⟩ := List.append_eq_nil_iff.mp hns.symm
          rw [hzeros, insertGroup_first hzero]
          have hone := @Written.plain [number order host addr 0] 0 fun n hn => by
            rwa [List.mem_singleton.mp hn]
          simpa using hone
      | succ i =>
          rw [numbers_succ] at hns
          cases zeros with
          | zero =>
              rw [List.replicate_zero, List.append_nil] at hns ⊢
              have hlast : number order host addr i ≠ 0 := by
                apply hfront
                rw [← hns]
                exact List.mem_append_right _ (List.mem_singleton_self _)
              have hne : front.map hexadecimal ≠ [] := by
                rw [Ne, List.map_eq_nil_iff, ← hns]
                exact List.append_ne_nil_of_right_ne_nil _ (List.cons_ne_nil _ _)
              rw [insertGroup_next (Or.inr ⟨hlast, hzero⟩)]
              have hmore := @Written.plain (front ++ [number order host addr (i + 1)]) 0 fun n hn => by
                rcases List.mem_append.mp hn with hn | hn
                · exact hfront n hn
                · rwa [List.mem_singleton.mp hn]
              rw [List.map_append, List.map_singleton, intercalate_concat hne, List.replicate_zero,
                List.append_nil] at hmore
              exact hmore
          | succ zeros =>
              rw [insertGroup_doubled (eq_zero_of_zeros hns) rfl hzero]
              have hdoubled := @Written.compressed front [number order host addr (i + 1)] (zeros + 1)
                (Nat.succ_pos zeros) (List.cons_ne_nil _ _)
              rw [List.map_singleton, List.intercalate_singleton] at hdoubled
              exact hdoubled
  | @compressed front back zeros hzeros hback =>
      cases i with
      | zero => exact absurd (List.append_eq_nil_iff.mp hns.symm).2 hback
      | succ i =>
          have hne : back.map hexadecimal ≠ [] := by
            rwa [Ne, List.map_eq_nil_iff]
          have hmore := @Written.compressed front (back ++ [number order host addr (i + 1)]) zeros hzeros
            (List.append_ne_nil_of_left_ne_nil hback _)
          rw [List.map_append, List.map_singleton, intercalate_concat hne] at hmore
          rw [insertGroup_next (Or.inl rfl)]
          simpa using hmore

theorem written_insertGroups (n : Nat) :
    Written (numbers order host addr n) (insertGroups order host addr n) := by
  induction n with
  | zero => exact .plain 0 fun m hm => absurd hm List.not_mem_nil
  | succ n ih => exact ih.round

theorem map_hexGroup_hexadecimal {ns : List Nat} (h : ∀ n ∈ ns, n < 16 ^ 4) :
    (ns.map hexadecimal).map hexGroup = ns.map some := by
  rw [List.map_map]
  apply List.map_congr_left
  intro n hn
  exact hexGroup_hexadecimal (h n hn)

theorem denotes_insertAddr : Denotes (insertAddr order host addr) (numbers order host addr 8) := by
  have hwritten := @written_insertGroups order host addr 8
  have hlength := @length_numbers order host addr 8
  have hlt : ∀ n ∈ numbers order host addr 8, n < 16 ^ 4 := fun n => lt_of_mem_numbers
  have hlast := @numbers_succ order host addr 7
  rw [insertAddr]
  generalize insertGroups order host addr 8 = os at hwritten
  generalize numbers order host addr 8 = ns at hwritten hlength hlt hlast
  cases hwritten with
  | @plain front zeros hfront =>
      have hreads := map_hexGroup_hexadecimal fun n hn => hlt n (List.mem_append_left _ hn)
      cases zeros with
      | zero =>
          rw [List.replicate_zero, List.append_nil] at hlength hlast ⊢
          have hnonzero : number order host addr 7 ≠ 0 := by
            apply hfront
            rw [hlast]
            exact List.mem_append_right _ (List.mem_singleton_self _)
          rw [if_neg fun h => hnonzero ((group_eq_zero_iff 7).mp h.2)]
          exact .full (reads_of_map hreads) hlength
      | succ zeros =>
          have hzero : number order host addr 7 = 0 := eq_zero_of_zeros hlast.symm
          rw [if_pos ⟨Bool.false_ne_true, (group_eq_zero_iff 7).mpr hzero⟩]
          rw [List.length_append, List.length_replicate] at hlength
          have hdenotes := Denotes.compressed hreads .nil (Nat.succ_pos zeros) hlength
          rwa [List.append_nil] at hdenotes
  | @compressed front back zeros hzeros hback =>
      rw [if_neg fun h => h.1 rfl]
      rw [List.append_assoc] at hlt
      have hfront := map_hexGroup_hexadecimal fun n hn => hlt n (List.mem_append_left _ hn)
      have hrest := map_hexGroup_hexadecimal fun n hn =>
        hlt n (List.mem_append_right _ (List.mem_append_right _ hn))
      apply Denotes.compressed hfront (reads_of_map hrest) hzeros
      rw [← hlength, List.length_append, List.length_append, List.length_replicate]

theorem numbers_eq_groupsOf (order host : ByteOrder) (addr : SockaddrIn6) :
    numbers order host addr 8 = groupsOf (seen order host addr) := by
  apply List.map_congr_left
  intro i hi
  exact number_eq (List.mem_range.mp hi)

theorem groupsOf_injective {a b : SockaddrIn6} (h : groupsOf a = groupsOf b) : a.s6Addr = b.s6Addr := by
  funext j
  have hgroup := List.map_inj_left.mp h (j / 2) (List.mem_range.mpr (by omega))
  rw [← getD_ofFn a.s6Addr j.isLt, ← getD_ofFn b.s6Addr j.isLt]
  have ha₀ := ((List.ofFn a.s6Addr).getD (2 * (j / 2)) 0).toNat_lt
  have hb₀ := ((List.ofFn b.s6Addr).getD (2 * (j / 2)) 0).toNat_lt
  have ha₁ := ((List.ofFn a.s6Addr).getD (2 * (j / 2) + 1) 0).toNat_lt
  have hb₁ := ((List.ofFn b.s6Addr).getD (2 * (j / 2) + 1) 0).toNat_lt
  apply UInt8.toNat_inj.mp
  rcases Nat.mod_two_eq_zero_or_one j with heven | hodd
  · rw [show (j : Nat) = 2 * (j / 2) by omega]
    omega
  · rw [show (j : Nat) = 2 * (j / 2) + 1 by omega]
    omega

theorem getPort_injective {a b : SockaddrIn6} (h : getPort order a = getPort order b) :
    a.sin6Port = b.sin6Port := by
  rw [← @networkToHost_networkToHost order a.sin6Port, BitVec.eq_of_toNat_eq h,
    networkToHost_networkToHost]

theorem portOf_injective {a b : SockaddrIn6} (h : portOf host a = portOf host b) :
    a.sin6Port = b.sin6Port := by
  apply @getPort_injective host a b
  rwa [getPort_eq host host, getPort_eq host host, seen, if_pos rfl, seen, if_pos rfl]

theorem seen_injective {a b : SockaddrIn6} (h : (seen order host a).s6Addr = (seen order host b).s6Addr) :
    a.s6Addr = b.s6Addr := by
  rw [seen, seen] at h
  by_cases hfits : order = host
  · rwa [if_pos hfits, if_pos hfits] at h
  · rw [if_neg hfits, if_neg hfits] at h
    funext j
    have hother : j.val + 1 - 2 * (j.val % 2) < 16 := by omega
    have hback : j.val + 1 - 2 * (j.val % 2) + 1 - 2 * ((j.val + 1 - 2 * (j.val % 2)) % 2) = j := by omega
    have hbyte := congrFun h ⟨j.val + 1 - 2 * (j.val % 2), hother⟩
    simp only [swapped, hback] at hbyte
    exact hbyte

theorem seen_eq_iff : seen order host addr = addr ↔ order = host ∨ swapped addr = addr := by
  rw [seen]
  by_cases hfits : order = host
  · rw [if_pos hfits, eq_self_iff_true, true_iff]
    exact Or.inl hfits
  · rw [if_neg hfits, or_iff_right hfits]

theorem denotes_groupsOf (order host : ByteOrder) (addr : SockaddrIn6) :
    Denotes (insertAddr order host addr) (groupsOf (seen order host addr)) := by
  rw [← numbers_eq_groupsOf order host addr]
  exact denotes_insertAddr

theorem insert_eq (order host : ByteOrder) (addr : SockaddrIn6) :
    insert order host addr = openBracket :: (insertAddr order host addr ++
      closeBracket :: colon :: decimal (getPort order addr)) := by
  rw [insert, List.cons_append]

/-- The printed text is read from its brackets. -/
theorem eq_of_insert {text : List UInt8} {port : Nat} (hbracket : closeBracket ∉ text)
    (h : insert order host addr = openBracket :: (text ++ closeBracket :: colon :: decimal port)) :
    text = insertAddr order host addr ∧ port = getPort order addr := by
  rw [insert_eq] at h
  obtain ⟨htext, hrest⟩ := eq_of_not_mem hbracket
    (denotes_groupsOf order host addr).not_mem_closeBracket (List.cons.inj h).2
  exact ⟨htext.symm, (decimal_injective (List.cons.inj hrest).2).symm⟩

theorem insert_injective {a b : SockaddrIn6} (h : insert order host a = insert order host b) : a = b := by
  rw [insert_eq order host b] at h
  have hb := denotes_groupsOf order host b
  obtain ⟨htext, hports⟩ := eq_of_insert hb.not_mem_closeBracket h
  rw [htext] at hb
  have hgroups := (denotes_groupsOf order host a).unique hb
  have haddr := seen_injective (groupsOf_injective hgroups)
  have hport := getPort_injective hports
  cases a
  cases b
  rw [SockaddrIn6.mk.injEq]
  exact ⟨hport.symm, haddr⟩

theorem shown_iff (order host : ByteOrder) (addr : SockaddrIn6) :
    Shown order host addr ↔ order = host ∨ swapped addr = addr := by
  rw [← seen_eq_iff]
  have hdenotes := denotes_groupsOf order host addr
  constructor
  · rintro ⟨text, hinsert, hbracket, -, hreads⟩
    obtain ⟨rfl, hport⟩ := eq_of_insert hbracket hinsert
    have haddr := groupsOf_injective (hdenotes.unique ((hreads _).mpr rfl))
    rw [getPort_eq order host] at hport
    have hports := portOf_injective hport
    generalize seen order host addr = addr' at haddr hports
    cases addr
    cases addr'
    rw [SockaddrIn6.mk.injEq]
    exact ⟨hports.symm, haddr⟩
  · intro hseen
    rw [hseen] at hdenotes
    refine ⟨insertAddr order host addr, ?_, hdenotes.not_mem_closeBracket, hdenotes.atMostOneDoubled,
      fun groups => ⟨fun h => h.unique hdenotes, ?_⟩⟩
    · rw [insert_eq, getPort_eq order host, hseen]
    · rintro rfl
      exact hdenotes

/-- An address is printed as a text of it, in brackets and with the port behind it, just if the cast fits
the memory or would change nothing in it; no two addresses are printed alike. -/
theorem insert_shown_iff (order host : ByteOrder) :
    (∀ addr, Shown order host addr ↔ order = host ∨ swapped addr = addr) ∧
      ∀ a b, insert order host a = insert order host b → a = b :=
  ⟨shown_iff order host, fun _ _ h => insert_injective h⟩

/-- `::1` and port 80, as a little-endian host has them in memory. -/
def loopback : SockaddrIn6 :=
  { sin6Port := 0x5000
    s6Addr := fun j => if j = 15 then 1 else 0 }

/-- Printed without a swap it is `[::100]:20480`. -/
theorem not_shown_loopback :
    insert .big .little loopback
        = [91, 58, 58, 49, 48, 48, 93, 58, 50, 48, 52, 56, 48] ∧
      ¬ Shown .big .little loopback := by
  refine ⟨by decide +kernel, fun h => ?_⟩
  rcases (shown_iff .big .little loopback).mp h with hfits | hswapped
  · cases hfits
  · exact absurd (congrArg SockaddrIn6.sin6Port hswapped) (by decide)

end Insert

end AsyncRPC.IPv6Address
