import AsyncRPC.Durations

/-!
# What the conversions keep

The timeout of `epoll_wait` is right as long as bit 31 of the time to the next timer is clear, and the
sleeping hooks as long as nothing is cut off at either end of the number.
-/

namespace AsyncRPC

open Word

namespace IOManager

variable {nextTime : Nat}

theorem clampTimeout_of_none (h : nextTime = 2 ^ 64 - 1) : clampTimeout nextTime = 3000 := by
  rw [clampTimeout, if_neg (not_not.mpr h)]
  rfl

theorem clampTimeout_of_low (hsome : nextTime ≠ 2 ^ 64 - 1) (h : nextTime % 2 ^ 32 < 2 ^ 31) :
    clampTimeout nextTime = min (nextTime % 2 ^ 32) 3000 := by
  rw [clampTimeout, if_pos hsome, intOfSize_of_low h, maxTimeout, sizeOfInt_of_nonneg]
  · omega
  · omega
  · omega

/-- Once it is small the conversion leaves it alone, however often it is repeated. -/
theorem clampTimeout_of_le (h : nextTime ≤ 3000) : clampTimeout nextTime = nextTime := by
  rw [clampTimeout_of_low (by omega) (by omega)]
  omega

theorem clampTimeout_le (h : nextTime = 2 ^ 64 - 1 ∨ nextTime % 2 ^ 32 < 2 ^ 31) :
    clampTimeout nextTime ≤ 3000 ∧ (nextTime ≠ 2 ^ 64 - 1 → clampTimeout nextTime ≤ nextTime) := by
  by_cases hnone : nextTime = 2 ^ 64 - 1
  · rw [clampTimeout_of_none hnone]
    exact ⟨le_rfl, fun hsome => absurd hnone hsome⟩
  · rw [clampTimeout_of_low hnone (h.resolve_left hnone)]
    have hmod := Nat.mod_le nextTime (2 ^ 32)
    exact ⟨by omega, fun _ => by omega⟩

theorem waitTimeouts_of_le (h : nextTime ≤ 3000) (interrupted : Nat) {timeout : Int}
    (hmem : timeout ∈ waitTimeouts nextTime interrupted) : timeout = nextTime := by
  have hone : intOfSize (clampTimeout nextTime) = nextTime := by
    rw [clampTimeout_of_le h]
    exact intOfSize_eq_self_iff.mpr (by omega)
  induction interrupted with
  | zero =>
      rw [waitTimeouts, List.mem_singleton] at hmem
      rw [hmem, hone]
  | succ n ih =>
      rw [waitTimeouts, List.mem_cons, hone] at hmem
      rcases hmem with hfirst | hrest
      · exact hfirst
      · rw [clampTimeout_of_le h] at hrest
        exact ih hrest

theorem waitTimeouts_eq (h : nextTime = 2 ^ 64 - 1 ∨ nextTime % 2 ^ 32 < 2 ^ 31) (interrupted : Nat)
    {timeout : Int} (hmem : timeout ∈ waitTimeouts nextTime interrupted) :
    timeout = clampTimeout nextTime := by
  have hle := (clampTimeout_le h).1
  have hone : intOfSize (clampTimeout nextTime) = clampTimeout nextTime :=
    intOfSize_eq_self_iff.mpr (by omega)
  cases interrupted with
  | zero =>
      rw [waitTimeouts, List.mem_singleton] at hmem
      rw [hmem, hone]
  | succ n =>
      rw [waitTimeouts, List.mem_cons, hone] at hmem
      rcases hmem with hfirst | hrest
      · exact hfirst
      · exact waitTimeouts_of_le hle n hrest

theorem head_mem_waitTimeouts (nextTime interrupted : Nat) :
    intOfSize (clampTimeout nextTime) ∈ waitTimeouts nextTime interrupted := by
  cases interrupted with
  | zero =>
      rw [waitTimeouts]
      exact List.mem_singleton.mpr rfl
  | succ n =>
      rw [waitTimeouts]
      exact List.mem_cons_self

theorem clampTimeout_negative (hsome : nextTime ≠ 2 ^ 64 - 1) (h : 2 ^ 31 ≤ nextTime % 2 ^ 32) :
    intOfSize (clampTimeout nextTime) < 0 := by
  have hmod := Nat.mod_lt nextTime (y := 2 ^ 32) (by decide)
  have hmin : min (intOfSize nextTime) maxTimeout = intOfSize nextTime := by
    rw [intOfSize_of_high h, maxTimeout]
    omega
  rw [clampTimeout, if_pos hsome, hmin, intOfSize_of_high h, sizeOfInt_of_neg (by omega) (by omega),
    intOfSize_of_high (by omega)]
  omega

/-- However often `epoll_wait` is interrupted its timeouts are in time, just if there is no timer or bit
31 of the time to the next one is clear. -/
theorem timely_iff_low (nextTime interrupted : Nat) :
    (∀ timeout ∈ waitTimeouts nextTime interrupted, Timely nextTime timeout) ↔
      nextTime = 2 ^ 64 - 1 ∨ nextTime % 2 ^ 32 < 2 ^ 31 := by
  constructor
  · intro hall
    by_contra hnot
    obtain ⟨hsome, hhigh⟩ := not_or.mp hnot
    have hnonneg := (hall _ (head_mem_waitTimeouts nextTime interrupted)).nonneg
    have hneg := clampTimeout_negative hsome (Nat.not_lt.mp hhigh)
    omega
  · intro h timeout hmem
    obtain ⟨hmax, hnext⟩ := clampTimeout_le h
    rw [waitTimeouts_eq h interrupted hmem]
    exact ⟨Int.natCast_nonneg _, by omega, fun hsome => Int.ofNat_le.mpr (hnext hsome)⟩

/-- A condition variable's timer of `UINT32_MAX` milliseconds: the wait is without end. -/
theorem not_timely_condVar :
    let nextTime := (TimerManager.init.addTimer 100 0 (2 ^ 32 - 1) (some 1) true).getNextTimerTime 0
    waitTimeouts nextTime 0 = [-1] ∧ ¬ ∀ timeout ∈ waitTimeouts nextTime 0, Timely nextTime timeout := by
  refine ⟨by decide, ?_⟩
  intro hall
  have hnonneg := (hall (-1) (by decide)).nonneg
  revert hnonneg
  decide

end IOManager

namespace Hook.Sleep

variable {m : TimerManager} {ptr now : Nat} {callback : Callback}

theorem next_addTimer (m : TimerManager) (ptr now ms : Nat) (callback : Option Callback)
    (recurring : Bool) :
    ((m.addTimer ptr now ms callback recurring).objects m.made).next = addSize now ms := by
  change (Function.update m.objects m.made _ m.made).next = _
  rw [Function.update_self]

theorem sleepsThrough_iff_le (call : Sleep) : SleepsThrough m ptr now callback call ↔
    now * 10 ^ 6 + call.nanoseconds ≤ addSize now call.ms * 10 ^ 6 := by
  rw [SleepsThrough, perform, Bool.not_true, if_neg Bool.false_ne_true, next_addTimer]

/-- Milliseconds that an `int` holds, added to the clock. -/
theorem addSize_ms_of_low {time : Nat} (hnow : now < 2 ^ 63) (h : time % 2 ^ 32 < 2 ^ 31) :
    addSize now (sizeOfInt (intOfSize time)) = now + time % 2 ^ 32 := by
  rw [intOfSize_of_low h, sizeOfInt_of_nonneg (by omega) (by omega), Int.toNat_natCast]
  exact addSize_of_lt (by omega)

/-- Milliseconds that turn negative are taken off the clock, modulo its width. -/
theorem addSize_ms_of_high {time : Nat} (hnow : now < 2 ^ 63) (h : 2 ^ 31 ≤ time % 2 ^ 32) :
    addSize now (sizeOfInt (intOfSize time)) =
      if now + time % 2 ^ 32 < 2 ^ 32 then 2 ^ 64 - 2 ^ 32 + now + time % 2 ^ 32
      else now + time % 2 ^ 32 - 2 ^ 32 := by
  have hmod := Nat.mod_lt time (y := 2 ^ 32) (by decide)
  rw [intOfSize_of_high h, sizeOfInt_of_neg (by omega) (by omega), addSize]
  generalize time % 2 ^ 32 = low at h hmod
  have hms : ((low : Int) - 2 ^ 32 + 2 ^ 64).toNat = 2 ^ 64 - 2 ^ 32 + low := by omega
  rw [hms]
  split <;> omega

theorem sleepsThrough_nanosleep_iff {tvSec tvNsec : Nat} (hsec : tvSec < 2 ^ 32)
    (hnsec : tvNsec < 10 ^ 9) (hnow : now < 2 ^ 63) :
    SleepsThrough m ptr now callback (.nanosleep tvSec tvNsec) ↔ Fits now (.nanosleep tvSec tvNsec) := by
  rw [sleepsThrough_iff_le, nanoseconds, ms, Fits]
  have hdiv : tvNsec / 1000 / 1000 = tvNsec / 1000000 := Nat.div_div_eq_div_mul _ _ _
  rw [hdiv]
  by_cases hlow : (tvSec * 1000 + tvNsec / 1000000) % 2 ^ 32 < 2 ^ 31
  · rw [addSize_ms_of_low hnow hlow]
    omega
  · rw [addSize_ms_of_high hnow (Nat.not_lt.mp hlow)]
    split <;> omega

/-- A hooked sleep lasts as long as was asked for, just if the duration is in whole milliseconds and fits
the types on the way. -/
theorem sleepsThrough_iff_fits (m : TimerManager) (ptr now : Nat) (callback : Callback) (call : Sleep)
    (hrange : call.InRange) (hnow : now < 2 ^ 63) :
    SleepsThrough m ptr now callback call ↔ call.Fits now := by
  cases call with
  | sleep seconds =>
      have hrange : seconds < 2 ^ 32 := hrange
      rw [sleepsThrough_iff_le, nanoseconds, ms, Fits, addSize_of_lt (by omega)]
      omega
  | usleep usec =>
      have hrange : usec < 2 ^ 32 := hrange
      rw [sleepsThrough_iff_le, nanoseconds, ms, Fits, addSize_of_lt (by omega)]
      omega
  | nanosleep tvSec tvNsec => exact sleepsThrough_nanosleep_iff hrange.1 hrange.2 hnow

/-- Two seconds and five milliseconds. -/
theorem sleepsThrough_iff_fits_short :
    SleepsThrough .init 100 (2 ^ 40) 1 (.nanosleep 2 5000000) :=
  (sleepsThrough_iff_fits .init 100 (2 ^ 40) 1 (.nanosleep 2 5000000) ⟨by decide, by decide⟩
    (by decide)).mpr
    (Or.inl (by decide))

/-- Fifty days, half a millisecond and thirty days, each with its own conversion. -/
theorem not_sleepsThrough_long : ¬ SleepsThrough .init 100 (2 ^ 40) 1 (.sleep 4320000) ∧
    ¬ SleepsThrough .init 100 (2 ^ 40) 1 (.usleep 500) ∧
    ¬ SleepsThrough .init 100 (2 ^ 40) 1 (.nanosleep 2592000 0) := by
  rw [sleepsThrough_iff_le, sleepsThrough_iff_le, sleepsThrough_iff_le]
  decide

end Hook.Sleep

end AsyncRPC
