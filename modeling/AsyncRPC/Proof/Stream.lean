import AsyncRPC.Stream
import Mathlib.Algebra.Order.BigOperators.Group.List
import Mathlib.Tactic.Linarith

/-!
# Fixed-size transfers

The contract and the condition are both stated for a whole transfer. While all results are positive
the loop keeps `offset + left = len`, so both can be followed down the list of results, with the
bytes left in place of `len`; the condition decides the contract at the first result that is not
positive, or where the list or the count ends.
-/

namespace AsyncRPC.Stream

open Word

/-- An update of the place in the buffer that moves by a positive result, as long as it stays below
`2 ^ 64`. -/
def Moves (advance : Nat → Int → Nat) : Prop :=
  ∀ offset r, 0 < r → offset + r.toNat < 2 ^ 64 → advance offset r = offset + r.toNat

theorem moves_advanceOffset : Moves advanceOffset := by
  intro offset r hr hlt
  rw [advanceOffset, sizeOfInt_of_nonneg hr.le (by omega), addSize_of_lt hlt]

theorem moves_advanceCursor : Moves advanceCursor := by
  intro offset r hr _
  rw [advanceCursor, if_pos hr]

section Loop

variable {advance : Nat → Int → Nat} {len : Nat}

theorem fixSizeLoop_done (results : List Int) (offset : Nat) :
    fixSizeLoop advance len results 0 offset = { requests := [], ret := some (intOfSize len) } := by
  unfold fixSizeLoop
  simp

theorem fixSizeLoop_waiting {left : Nat} (hleft : 0 < left) (offset : Nat) :
    fixSizeLoop advance len [] left offset = { requests := [⟨offset, left⟩], ret := none } := by
  unfold fixSizeLoop
  simp [hleft]

theorem fixSizeLoop_zero {left : Nat} (hleft : 0 < left) (results : List Int) (offset : Nat) :
    fixSizeLoop advance len (0 :: results) left offset
      = { requests := [⟨offset, left⟩], ret := some 0 } := by
  unfold fixSizeLoop
  simp [hleft]

theorem fixSizeLoop_neg_one {left : Nat} (hleft : 0 < left) (results : List Int) (offset : Nat) :
    fixSizeLoop advance len (-1 :: results) left offset
      = (fixSizeLoop advance len results (subSize left (2 ^ 64 - 1)) (advance offset (-1))).after
          ⟨offset, left⟩ := by
  rw [fixSizeLoop.eq_def, if_pos hleft]
  simp only [sizeOfInt_neg_one]
  rw [if_neg (by decide)]

theorem fixSizeLoop_pos (hmoves : Moves advance) {left offset : Nat} {r : Int}
    (hr : 0 < r) (hle : r ≤ left) (hlt : offset + left < 2 ^ 64) (results : List Int) :
    fixSizeLoop advance len (r :: results) left offset
      = (fixSizeLoop advance len results (left - r.toNat) (offset + r.toNat)).after
          ⟨offset, left⟩ := by
  have hsize : sizeOfInt r = r.toNat := sizeOfInt_of_nonneg hr.le (by omega)
  rw [fixSizeLoop.eq_def, if_pos (by omega)]
  simp only [hsize]
  rw [if_neg (by omega), subSize_of_le (by omega), hmoves offset r hr (by omega)]

theorem requests_fixSizeLoop_ne_nil {left : Nat} (hleft : 0 < left) (results : List Int)
    (offset : Nat) : (fixSizeLoop advance len results left offset).requests ≠ [] := by
  rw [fixSizeLoop.eq_def, if_pos hleft]
  cases results with
  | nil => simp
  | cons r results =>
      by_cases h : sizeOfInt r ≤ 0 <;> simp [h, Trace.after]

end Loop

/-! ### Sums of positive results -/

theorem sum_nonneg_of_pos {xs : List Int} (hpos : ∀ x ∈ xs, 0 < x) : 0 ≤ xs.sum :=
  List.sum_nonneg fun x hx => (hpos x hx).le

theorem not_reached_zero {results : List Int} {k : Nat} {r : Int} : ¬ Reached 0 results k r := by
  rintro ⟨-, hpos, hsum⟩
  have := sum_nonneg_of_pos hpos
  push_cast at hsum
  omega

theorem reached_cons_zero {left : Nat} (hleft : 0 < left) {r x : Int} {results : List Int} :
    Reached left (x :: results) 0 r ↔ r = x := by
  constructor
  · rintro ⟨hget, -, -⟩
    simpa [eq_comm] using hget
  · rintro rfl
    exact ⟨rfl, by simp, by simpa using hleft⟩

theorem reached_cons_succ {left : Nat} {r x : Int} (hle : x ≤ left) {results : List Int} {k : Nat} :
    Reached left (x :: results) (k + 1) r ↔ 0 < x ∧ Reached (left - x.toNat) results k r := by
  unfold Reached
  simp only [List.getElem?_cons_succ, List.take_succ_cons, List.mem_cons, forall_eq_or_imp,
    List.sum_cons]
  constructor
  · rintro ⟨hget, ⟨hx, hpos⟩, hsum⟩
    exact ⟨hx, hget, hpos, by omega⟩
  · rintro ⟨hx, hget, hpos, hsum⟩
    exact ⟨hget, ⟨hx, hpos⟩, by omega⟩

theorem completes_cons {left : Nat} (hleft : 0 < left) {x : Int} (hle : x ≤ left)
    {results : List Int} :
    (∃ k, Completes left (x :: results) k)
      ↔ 0 < x ∧ ∃ k, Completes (left - x.toNat) results k := by
  unfold Completes
  constructor
  · rintro ⟨k, hpos, hsum⟩
    cases k with
    | zero =>
        simp only [List.take_zero, List.sum_nil] at hsum
        omega
    | succ k =>
        simp only [List.take_succ_cons, List.mem_cons, forall_eq_or_imp, List.sum_cons] at hpos hsum
        exact ⟨hpos.1, k, hpos.2, by omega⟩
  · rintro ⟨hx, k, hpos, hsum⟩
    refine ⟨k + 1, ?_, ?_⟩
    · simp only [List.take_succ_cons, List.mem_cons, forall_eq_or_imp]
      exact ⟨hx, hpos⟩
    · simp only [List.take_succ_cons, List.sum_cons]
      omega

theorem completes_zero (results : List Int) : Completes 0 results 0 := by
  simp [Completes]

/-! ### The loop, with `left` bytes to go -/

/-- The contract of a transfer of `len` bytes that has `left` of them to go. -/
structure LoopContract (len left : Nat) (results : List Int) (trace : Trace) : Prop where
  inBounds : ∀ q ∈ trace.requests, q.offset + q.len ≤ len
  returnsLen : trace.ret = some (len : Int) ↔ ∃ k, Completes left results k
  stops : ∀ k r, Reached left results k r → r ≤ 0 →
    trace.requests.length = k + 1 ∧ ∃ v, trace.ret = some v ∧ v ≤ 0

/-- The condition for a transfer of `len` bytes that has `left` of them to go. -/
def LoopNoFailure (len left : Nat) (results : List Int) : Prop :=
  (∀ k, Reached left results k (-1) → k = 0 ∧ left = 2 ^ 64 - 1) ∧
    ((∃ k, Completes left results k) → len < 2 ^ 31)

section Exact

variable {advance : Nat → Int → Nat} {len : Nat}

theorem loopContract_done_iff (results : List Int) :
    LoopContract len 0 results { requests := [], ret := some (intOfSize len) }
      ↔ LoopNoFailure len 0 results := by
  have hcompletes : ∃ k, Completes 0 results k := ⟨0, completes_zero results⟩
  constructor
  · intro h
    refine ⟨fun k hk => absurd hk not_reached_zero, fun _ => ?_⟩
    have := h.returnsLen.mpr hcompletes
    exact intOfSize_eq_self_iff.mp (Option.some.inj this)
  · rintro ⟨-, hlen⟩
    refine ⟨by simp, ?_, fun k r hk => absurd hk not_reached_zero⟩
    rw [intOfSize_eq_self_iff.mpr (hlen hcompletes)]
    exact ⟨fun _ => hcompletes, fun _ => rfl⟩

theorem loopContract_waiting {left offset : Nat} (hleft : 0 < left) (hplace : offset + left = len) :
    LoopContract len left [] { requests := [⟨offset, left⟩], ret := none } ∧
      LoopNoFailure len left [] := by
  have hcompletes : ¬ ∃ k, Completes left [] k := by
    rintro ⟨k, -, hsum⟩
    simp only [List.take_nil, List.sum_nil] at hsum
    omega
  refine ⟨⟨by simp [hplace], ?_, ?_⟩, ?_, fun h => absurd h hcompletes⟩
  · exact ⟨fun h => by simp at h, fun h => absurd h hcompletes⟩
  · rintro k r ⟨hget, -, -⟩
    simp at hget
  · rintro k ⟨hget, -, -⟩
    simp at hget

theorem loopContract_zero {left offset : Nat} (hleft : 0 < left) (hplace : offset + left = len)
    (results : List Int) :
    LoopContract len left (0 :: results) { requests := [⟨offset, left⟩], ret := some 0 } ∧
      LoopNoFailure len left (0 :: results) := by
  have hcompletes : ¬ ∃ k, Completes left (0 :: results) k := by
    rw [completes_cons hleft (by omega)]
    rintro ⟨h, -⟩
    exact absurd h (lt_irrefl 0)
  have hreached : ∀ k r, Reached left (0 :: results) k r → k = 0 ∧ r = 0 := by
    intro k r hk
    cases k with
    | zero => exact ⟨rfl, (reached_cons_zero hleft).mp hk⟩
    | succ k => exact absurd ((reached_cons_succ (by omega)).mp hk).1 (lt_irrefl 0)
  refine ⟨⟨by simp [hplace], ?_, ?_⟩, ?_, fun h => absurd h hcompletes⟩
  · refine ⟨fun h => ?_, fun h => absurd h hcompletes⟩
    have := Option.some.inj h
    omega
  · intro k r hk _
    obtain ⟨rfl, rfl⟩ := hreached k r hk
    exact ⟨rfl, 0, rfl, le_rfl⟩
  · intro k hk
    have := (hreached k (-1) hk).2
    omega

/-- The failing call: the count left wraps up by one, so unless that makes it zero the loop goes on,
against the contract. -/
theorem loopContract_neg_one_iff {left offset : Nat} (hleft : 0 < left)
    (hplace : offset + left = len) (hlen : len < 2 ^ 64) (results : List Int) :
    LoopContract len left (-1 :: results) (fixSizeLoop advance len (-1 :: results) left offset)
      ↔ LoopNoFailure len left (-1 :: results) := by
  have hhere : Reached left (-1 :: results) 0 (-1) := (reached_cons_zero hleft).mpr rfl
  have hreached : ∀ k r, Reached left (-1 :: results) k r → k = 0 ∧ r = -1 := by
    intro k r hk
    cases k with
    | zero => exact ⟨rfl, (reached_cons_zero hleft).mp hk⟩
    | succ k =>
        have := ((reached_cons_succ (by omega)).mp hk).1
        omega
  have hcompletes : ¬ ∃ k, Completes left (-1 :: results) k := by
    rw [completes_cons hleft (by omega)]
    rintro ⟨h, -⟩
    omega
  rw [fixSizeLoop_neg_one hleft]
  by_cases hwrap : left = 2 ^ 64 - 1
  · -- the count wraps to zero, and `len` converts to `-1`
    have hzero : subSize left (2 ^ 64 - 1) = 0 := by
      rw [subSize_of_le (by omega)]
      omega
    have hret : intOfSize len = -1 := by
      rw [show len = 2 ^ 64 - 1 by omega]
      decide
    rw [hzero, fixSizeLoop_done, hret]
    refine iff_of_true ⟨?_, ?_, ?_⟩ ⟨?_, fun h => absurd h hcompletes⟩
    · simp [Trace.after, hplace]
    · refine ⟨fun h => ?_, fun h => absurd h hcompletes⟩
      have := Option.some.inj h
      omega
    · intro k r hk _
      obtain ⟨rfl, rfl⟩ := hreached k r hk
      exact ⟨rfl, -1, rfl, by omega⟩
    · exact fun k hk => ⟨(hreached k (-1) hk).1, hwrap⟩
  · refine iff_of_false ?_ ?_
    · intro h
      have hone := (h.stops 0 (-1) hhere (by omega)).1
      have hmore : 0 < subSize left (2 ^ 64 - 1) := by
        unfold subSize
        split <;> omega
      have hne : (fixSizeLoop advance len results _ (advance offset (-1))).requests ≠ [] :=
        requests_fixSizeLoop_ne_nil hmore results _
      simp only [Trace.after, List.length_cons] at hone
      exact hne (List.eq_nil_of_length_eq_zero (by omega))
    · exact fun h => hwrap (h.1 0 hhere).2

/-- A positive result hands both the contract and the condition on to the rest of the transfer. -/
theorem loopContract_pos_iff {left offset : Nat} {r : Int} (hr : 0 < r) (hle : r ≤ left)
    (hplace : offset + left = len) (results : List Int) (trace : Trace) :
    LoopContract len left (r :: results) (trace.after ⟨offset, left⟩)
      ↔ LoopContract len (left - r.toNat) results trace := by
  have hleft : 0 < left := by omega
  constructor
  · intro h
    refine ⟨fun q hq => h.inBounds q (List.mem_cons_of_mem _ hq), ?_, ?_⟩
    · have := h.returnsLen
      rw [completes_cons hleft hle] at this
      simpa [Trace.after, hr] using this
    · intro k x hk hx
      have := h.stops (k + 1) x ((reached_cons_succ hle).mpr ⟨hr, hk⟩) hx
      simpa [Trace.after] using this
  · intro h
    refine ⟨?_, ?_, ?_⟩
    · intro q hq
      rcases List.mem_cons.mp hq with rfl | hq
      · exact hplace.le
      · exact h.inBounds q hq
    · rw [completes_cons hleft hle]
      simpa [Trace.after, hr] using h.returnsLen
    · intro k x hk hx
      cases k with
      | zero =>
          have := (reached_cons_zero hleft).mp hk
          omega
      | succ k =>
          have := h.stops k x ((reached_cons_succ hle).mp hk).2 hx
          simpa [Trace.after] using this

theorem loopNoFailure_pos_iff {left : Nat} {r : Int} (hr : 0 < r) (hle : r ≤ left)
    (hlt : left < 2 ^ 64) (results : List Int) :
    LoopNoFailure len left (r :: results) ↔ LoopNoFailure len (left - r.toNat) results := by
  have hleft : 0 < left := by omega
  unfold LoopNoFailure
  rw [completes_cons hleft hle]
  constructor
  · rintro ⟨hfail, hlen⟩
    refine ⟨fun k hk => ?_, fun h => hlen ⟨hr, h⟩⟩
    have := (hfail (k + 1) ((reached_cons_succ hle).mpr ⟨hr, hk⟩)).1
    omega
  · rintro ⟨hfail, hlen⟩
    refine ⟨fun k hk => ?_, fun h => hlen h.2⟩
    cases k with
    | zero =>
        have := (reached_cons_zero hleft).mp hk
        omega
    | succ k =>
        have := (hfail k ((reached_cons_succ hle).mp hk).2).2
        omega

/-- **The loop keeps its contract precisely when nothing it gets to fails.** By induction on the
results; `offset + left = len` carries it, since it holds as long as all results are positive. -/
theorem loopContract_iff (hmoves : Moves advance) (hlen : len < 2 ^ 64) :
    ∀ (results : List Int) (left offset : Nat), offset + left = len →
      Answered (fixSizeLoop advance len results left offset) results →
      (LoopContract len left results (fixSizeLoop advance len results left offset)
        ↔ LoopNoFailure len left results) := by
  intro results
  induction results with
  | nil =>
      intro left offset hplace _
      rcases Nat.eq_zero_or_pos left with rfl | hleft
      · rw [fixSizeLoop_done]
        exact loopContract_done_iff []
      · rw [fixSizeLoop_waiting hleft]
        obtain ⟨hcontract, hcond⟩ := loopContract_waiting hleft hplace
        exact iff_of_true hcontract hcond
  | cons r results ih =>
      intro left offset hplace hanswered
      rcases Nat.eq_zero_or_pos left with rfl | hleft
      · rw [fixSizeLoop_done]
        exact loopContract_done_iff (r :: results)
      have hanswer : Answers ⟨offset, left⟩ r := by
        refine hanswered (⟨offset, left⟩, r) ?_
        rw [fixSizeLoop.eq_def, if_pos hleft]
        by_cases h : sizeOfInt r ≤ 0 <;> simp [h, Trace.after]
      rcases hanswer with rfl | rfl | ⟨hpos, hle, -⟩
      · exact loopContract_neg_one_iff hleft hplace hlen results
      · rw [fixSizeLoop_zero hleft]
        obtain ⟨hcontract, hcond⟩ := loopContract_zero hleft hplace results
        exact iff_of_true hcontract hcond
      · replace hle : r ≤ left := hle
        have hstep : fixSizeLoop advance len (r :: results) left offset = _ :=
          fixSizeLoop_pos hmoves (by omega) hle (by omega) results
        rw [hstep] at hanswered ⊢
        rw [loopContract_pos_iff (by omega) hle hplace, loopNoFailure_pos_iff (by omega) hle (by omega)]
        refine ih (left - r.toNat) (offset + r.toNat) (by omega) fun p hp => hanswered p ?_
        simp only [Trace.after, List.zip_cons_cons]
        exact List.mem_cons_of_mem _ hp

end Exact

theorem contract_iff_loopContract {len : Nat} {results : List Int} {trace : Trace} :
    Contract len results trace ↔ LoopContract len len results trace :=
  ⟨fun h => ⟨h.inBounds, h.returnsLen, h.stops⟩, fun h => ⟨h.inBounds, h.returnsLen, h.stops⟩⟩

theorem noFailure_iff_loopNoFailure {len : Nat} {results : List Int} :
    NoFailure len results ↔ LoopNoFailure len len results := by
  unfold NoFailure LoopNoFailure
  rw [forall_exists_index]

theorem Overload.call_eq (o : Overload) (len : UInt64) (results : List Int) :
    ∃ advance, Moves advance ∧
      o.call len results = fixSizeLoop advance len.toNat results len.toNat 0 := by
  cases o with
  | readBuff => exact ⟨_, moves_advanceOffset, rfl⟩
  | readByteArray => exact ⟨_, moves_advanceCursor, rfl⟩
  | writeBuff => exact ⟨_, moves_advanceOffset, rfl⟩
  | writeByteArray => exact ⟨_, moves_advanceCursor, rfl⟩

/-- **Fixed-size transfers.** Whatever the underlying calls answer, each of the four overloads keeps
its contract precisely when no call it gets to fails and a length it completes fits an `int`. -/
theorem contract_call_iff (o : Overload) (len : UInt64) (results : List Int)
    (hanswered : Answered (o.call len results) results) :
    Contract len.toNat results (o.call len results) ↔ NoFailure len.toNat results := by
  obtain ⟨advance, hmoves, hcall⟩ := o.call_eq len results
  rw [hcall] at hanswered ⊢
  rw [contract_iff_loopContract, noFailure_iff_loopNoFailure]
  exact loopContract_iff hmoves len.toNat_lt results len.toNat 0 (by omega) hanswered

theorem contract_call_iff_two_pieces :
    Answered (Overload.readBuff.call 5 [2, 3]) [2, 3] ∧
      (Contract 5 [2, 3] (Overload.readBuff.call 5 [2, 3]) ↔ NoFailure 5 [2, 3]) := by
  have hanswered : Answered (Overload.readBuff.call 5 [2, 3]) [2, 3] := by
    unfold Answered
    decide +kernel
  exact ⟨hanswered, contract_call_iff .readBuff 5 [2, 3] hanswered⟩

/-- The first `read` fails and the loop goes on: it asks for three bytes from one before the buffer
and, when it gets them, reports two bytes read. -/
theorem not_contract_readFixSize_failing :
    Answered (Overload.readBuff.call 2 [-1, 3]) [-1, 3] ∧
      Overload.readBuff.call 2 [-1, 3] = { requests := [⟨0, 2⟩, ⟨2 ^ 64 - 1, 3⟩], ret := some 2 } ∧
      ¬ Contract 2 [-1, 3] (Overload.readBuff.call 2 [-1, 3]) := by
  have hcall : Overload.readBuff.call 2 [-1, 3]
      = { requests := [⟨0, 2⟩, ⟨2 ^ 64 - 1, 3⟩], ret := some 2 } := by decide +kernel
  refine ⟨?_, hcall, fun h => ?_⟩
  · unfold Answered
    decide +kernel
  · rw [hcall] at h
    have hbounds := h.inBounds ⟨2 ^ 64 - 1, 3⟩ (by simp)
    exact absurd hbounds (by decide)

end AsyncRPC.Stream
