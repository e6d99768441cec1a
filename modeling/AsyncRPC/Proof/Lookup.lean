import AsyncRPC.Lookup
import AsyncRPC.Proof.IPv6Address
import Mathlib.Data.List.TakeWhile

/-!
# What a lookup asks for

Each way a host can be written, and what its characters make `query` do. Where there are two colons the
pointer to the first of them survives.
-/

namespace AsyncRPC.Lookup

open IPv6Address Separated

variable {host h p : List UInt8}

section Memchr

theorem memchr_first {c : UInt8} {a b skipped : List UInt8} (ha : c ∉ a) :
    memchr (skipped ++ (a ++ c :: b)) skipped.length c = some (skipped.length + a.length) := by
  rw [memchr, List.drop_left, idxOf?_first ha, Option.map_some]

theorem memchr_none {c : UInt8} {rest skipped : List UInt8} (h : c ∉ rest) :
    memchr (skipped ++ rest) skipped.length c = none := by
  rw [memchr, List.drop_left, List.idxOf?_eq_none_iff.mpr h, Option.map_none]

theorem cString_eq {bytes : List UInt8} (h : 0 ∉ bytes) : cString bytes = bytes := by
  rw [cString, List.takeWhile_eq_self_iff]
  intro b hb
  rw [decide_eq_true_eq]
  rintro rfl
  exact h hb

end Memchr

section Cases

variable {s : Split}

theorem charAt_zero_eq_iff :
    ¬ host.isEmpty ∧ charAt host 0 = openBracket ↔ host.head? = some openBracket := by
  cases host with
  | nil => simp
  | cons c host => simp [charAt]

theorem bracketed_eq (rest : List UInt8) (hclose : closeBracket ∉ h) :
    bracketed (openBracket :: (h ++ closeBracket :: rest)) s =
      { node := h
        service := if rest.head? = some colon then some (h.length + 3) else s.service } := by
  have hfound := @memchr_first closeBracket h rest [openBracket] hclose
  have hnext : charAt (openBracket :: (h ++ closeBracket :: rest)) (1 + h.length + 1) = colon ↔
      rest.head? = some colon := by
    have hplace : h.length + 1 - h.length = 1 := Nat.add_sub_cancel_left h.length 1
    rw [charAt, Nat.add_comm 1, List.getD_cons_succ, List.getD_eq_getElem?_getD,
      List.getElem?_append_right (Nat.le_add_right _ _), hplace, List.getElem?_cons_succ]
    cases rest with
    | nil => simp [colon]
    | cons c rest => simp
  rw [List.singleton_append, List.length_singleton] at hfound
  rw [bracketed, if_pos (charAt_zero_eq_iff.mpr rfl)]
  simp only [hfound]
  rw [Split.mk.injEq]
  refine ⟨?_, if_congr hnext (congrArg some (by omega)) rfl⟩
  rw [List.drop_one, List.tail_cons, Nat.add_sub_cancel_left, List.take_left]

theorem bracketed_of_head (hhead : host.head? ≠ some openBracket) : bracketed host s = s := by
  rw [bracketed, if_neg fun hopen => hhead (charAt_zero_eq_iff.mp hopen)]

theorem unbracketed_of_node (hnode : s.node ≠ []) : unbracketed host s = s := by
  rw [unbracketed, if_neg fun hempty => hnode (List.isEmpty_iff.mp hempty)]

theorem whole_of_node (hnode : s.node ≠ []) : whole host s = s := by
  rw [whole, if_neg fun hempty => hnode (List.isEmpty_iff.mp hempty)]

theorem unbracketed_no_colon (hcolon : colon ∉ host) (hnode : s.node = []) :
    unbracketed host s = { node := [], service := none } := by
  have hnone := @memchr_none colon host [] hcolon
  rw [List.nil_append, List.length_nil] at hnone
  rw [unbracketed, if_pos (List.isEmpty_iff.mpr hnode), hnone]
  simp only [hnode]

theorem unbracketed_one_colon (hh : colon ∉ h) (hp : colon ∉ p) (hnode : s.node = []) :
    unbracketed (h ++ colon :: p) s = { node := h, service := some (h.length + 1) } := by
  have hfirst := @memchr_first colon h p [] hh
  have hsecond := @memchr_none colon p (h ++ [colon]) hp
  rw [List.nil_append, List.length_nil, Nat.zero_add] at hfirst
  rw [List.append_assoc, List.singleton_append, List.length_append, List.length_singleton] at hsecond
  rw [unbracketed, if_pos (List.isEmpty_iff.mpr hnode)]
  simp only [hfirst, hsecond, List.take_left]

theorem unbracketed_two_colons {a b c : List UInt8} (ha : colon ∉ a) (hb : colon ∉ b) (hnode : s.node = []) :
    unbracketed (a ++ colon :: (b ++ colon :: c)) s = { node := [], service := some a.length } := by
  have hfirst := @memchr_first colon a (b ++ colon :: c) [] ha
  have hsecond := @memchr_first colon b c (a ++ [colon]) hb
  rw [List.nil_append, List.length_nil, Nat.zero_add] at hfirst
  rw [List.append_assoc, List.singleton_append, List.length_append, List.length_singleton] at hsecond
  rw [unbracketed, if_pos (List.isEmpty_iff.mpr hnode)]
  simp only [hfirst, hsecond, hnode]

end Cases

section Query

theorem query_bracketed (rest : List UInt8) (hne : h ≠ []) (hclose : closeBracket ∉ h) (hnul : 0 ∉ h) :
    query (openBracket :: (h ++ closeBracket :: rest)) =
      { node := h
        service := if rest.head? = some colon then some (cString rest.tail) else none } := by
  rw [query, bracketed_eq rest hclose, @unbracketed_of_node _ { node := h, service := _ } hne,
    @whole_of_node _ { node := h, service := _ } hne, Query.mk.injEq]
  refine ⟨cString_eq hnul, ?_⟩
  simp only
  split
  · have hplace : openBracket :: (h ++ closeBracket :: rest) =
        (openBracket :: h ++ [closeBracket]) ++ rest := by simp
    rw [Option.map_some, hplace, ← List.drop_drop (i := 1), List.drop_left' (by simp), List.drop_one]
  · rfl

theorem query_no_colon (hhead : host.head? ≠ some openBracket) (hcolon : colon ∉ host) (hnul : 0 ∉ host) :
    query host = { node := host, service := none } := by
  rw [query, bracketed_of_head hhead, unbracketed_no_colon hcolon rfl, whole, if_pos List.isEmpty_nil]
  simp only [cString_eq hnul, Option.map_none]

theorem query_one_colon (hne : h ≠ []) (hhead : h.head? ≠ some openBracket) (hh : colon ∉ h)
    (hp : colon ∉ p) (hnul : 0 ∉ h ++ colon :: p) :
    query (h ++ colon :: p) = { node := h, service := some p } := by
  have hhost : (h ++ colon :: p).head? ≠ some openBracket := by
    rwa [List.head?_append_of_ne_nil _ hne]
  have hnode : 0 ∉ h := fun hmem => hnul (List.mem_append_left _ hmem)
  have hservice : 0 ∉ p := fun hmem => hnul (List.mem_append_right _ (List.mem_cons_of_mem _ hmem))
  have hplace : h ++ colon :: p = (h ++ [colon]) ++ p := by simp
  rw [query, bracketed_of_head hhost, unbracketed_one_colon hh hp rfl,
    @whole_of_node _ { node := h, service := _ } hne]
  simp only [Option.map_some]
  rw [cString_eq hnode, hplace, List.drop_left' (by simp), cString_eq hservice]

/-- The pointer to the first colon is passed on. -/
theorem query_two_colons (hmany : ManyColons host) : (query host).service ≠ none := by
  obtain ⟨hopen, -, hcount⟩ := hmany
  have hfirst : colon ∈ host := List.count_pos_iff.mp (by omega)
  obtain ⟨a, rest, rfl, ha⟩ := List.eq_append_cons_of_mem hfirst
  rw [List.count_append, List.count_eq_zero.mpr ha, List.count_cons_self] at hcount
  have hsecond : colon ∈ rest := List.count_pos_iff.mp (by omega)
  obtain ⟨b, c, rfl, hb⟩ := List.eq_append_cons_of_mem hsecond
  rw [query, bracketed_of_head hopen, unbracketed_two_colons ha hb rfl, whole, if_pos List.isEmpty_nil]
  exact Option.some_ne_none _

end Query

/-- The host is taken apart as it is written unless it has two colons and no bracket. -/
theorem splits_iff_not_manyColons (hnul : 0 ∉ host) : Splits host ↔ ¬ ManyColons host := by
  constructor
  · intro hsplits hmany
    obtain ⟨hopen, hcolon, hcount⟩ := hmany
    apply query_two_colons ⟨hopen, hcolon, hcount⟩
    rw [hsplits.whole hopen hcolon (Or.inr hcount)]
  · intro hfew
    refine ⟨?_, ?_, ?_, ?_⟩
    · rintro h p rfl hne hclose
      have hh : 0 ∉ h := fun hmem => hnul (by simp [hmem])
      have hp : 0 ∉ p := fun hmem => hnul (by simp [hmem])
      have hquery := query_bracketed (colon :: p) hne hclose hh
      rwa [List.head?_cons, if_pos rfl, List.tail_cons, cString_eq hp] at hquery
    · rintro h rfl hne hclose
      have hh : 0 ∉ h := fun hmem => hnul (by simp [hmem])
      exact query_bracketed [] hne hclose hh
    · rintro h p rfl hne hhead hh hp
      exact query_one_colon hne hhead hh hp hnul
    · rintro hopen hcolon (hnone | hmany)
      · exact query_no_colon hopen (List.count_eq_zero.mp hnone) hnul
      · exact absurd ⟨hopen, hcolon, hmany⟩ hfew

section Addresses

theorem toString_eq (address : IPv4Address) :
    address.toString = address.addrText ++ colon :: decimal address.port.toNat := by
  simp only [IPv4Address.toString, IPv4Address.addrText, List.map_cons, List.map_nil,
    List.intercalate_cons_cons, List.intercalate_singleton, List.append_assoc, List.cons_append,
    List.nil_append]
  rfl

theorem addrText_ne_nil (address : IPv4Address) : address.addrText ≠ [] :=
  intercalate_ne_nil (decimal_ne_nil _)

/-- Digits and dots. -/
theorem not_mem_addrText {c : UInt8} (hdigit : hexDigit c = none) (hdot : c ≠ dot) (address : IPv4Address) :
    c ∉ address.addrText := by
  intro hc
  rcases mem_intercalate hc with rfl | ⟨octet, hoctet, hc⟩
  · exact hdot rfl
  · obtain ⟨shift, -, rfl⟩ := List.mem_map.mp hoctet
    exact not_mem_decimal hdigit _ hc

theorem query_toString (address : IPv4Address) :
    query address.toString =
      { node := address.addrText
        service := some (decimal address.port.toNat) } := by
  rw [toString_eq]
  apply query_one_colon (addrText_ne_nil address)
  · intro hhead
    exact not_mem_addrText rfl (by decide) address (List.mem_of_head? hhead)
  · exact not_mem_addrText rfl (by decide) address
  · exact not_mem_decimal rfl _
  · intro hnul
    rcases List.mem_append.mp hnul with hnul | hnul
    · exact not_mem_addrText rfl (by decide) address hnul
    · rcases List.mem_cons.mp hnul with hcolon | hnul
      · cases hcolon
      · exact not_mem_decimal rfl _ hnul

theorem query_insert (order memory : ByteOrder) (addr : Subnet.SockaddrIn6) :
    query (insert order memory addr) =
      { node := insertAddr order memory addr
        service := some (decimal (getPort order addr)) } := by
  have hdenotes := denotes_groupsOf order memory addr
  have hquery := query_bracketed (colon :: decimal (getPort order addr)) hdenotes.ne_nil
    hdenotes.not_mem_closeBracket (hdenotes.not_mem rfl (by decide) (by decide))
  rw [insert_eq, hquery, List.head?_cons, if_pos rfl, List.tail_cons,
    cString_eq (not_mem_decimal rfl _)]

end Addresses

/-- Every other host is taken apart as it is written, the printed addresses among them: the node is the
address as the cast shows it, the service its port. -/
theorem lookup_splits_iff (host : List UInt8) (hnul : 0 ∉ host) (v4 : IPv4Address)
    (order memory : ByteOrder) (v6 : Subnet.SockaddrIn6) :
    (Splits host ↔ ¬ ManyColons host) ∧
      query v4.toString = { node := v4.addrText, service := some (decimal v4.port.toNat) } ∧
      query (insert order memory v6) =
        { node := insertAddr order memory v6, service := some (decimal (getPort order v6)) } ∧
      Denotes (insertAddr order memory v6) (groupsOf (seen order memory v6)) ∧
      getPort order v6 = portOf memory (seen order memory v6) :=
  ⟨splits_iff_not_manyColons hnul, query_toString v4, query_insert order memory v6,
    denotes_groupsOf order memory v6, getPort_eq order memory v6⟩

/-- `fe80::1` -/
def linkLocal : List UInt8 := [102, 101, 56, 48, 58, 58, 49]

theorem manyColons_linkLocal : ManyColons linkLocal := by
  refine ⟨?_, ?_, ?_⟩ <;> decide

theorem lookup_splits_iff_linkLocal :
    (Splits linkLocal ↔ ¬ ManyColons linkLocal) ∧
      query (IPv4Address.toString { addr := 0x7F000001, port := 80 }) =
        { node := [49, 50, 55, 46, 48, 46, 48, 46, 49], service := some [56, 48] } ∧
      query (insert .big .little loopback) =
        { node := [58, 58, 49, 48, 48], service := some [50, 48, 52, 56, 48] } ∧
      Denotes [58, 58, 49, 48, 48] (groupsOf (swapped loopback)) ∧
      20480 = portOf .little (swapped loopback) :=
  lookup_splits_iff linkLocal (by decide) { addr := 0x7F000001, port := 80 } .big .little loopback

/-- The service asked for is everything from the first colon on. -/
theorem not_splits_linkLocal :
    0 ∉ linkLocal ∧ ¬ Splits linkLocal ∧
      query linkLocal = { node := linkLocal, service := some [58, 58, 49] } :=
  ⟨by decide, fun h => (splits_iff_not_manyColons (by decide)).mp h manyColons_linkLocal, by decide⟩

end AsyncRPC.Lookup
