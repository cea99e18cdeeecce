import DebugCode.LatencyTest.Sqrt
import DebugCode.Lib.Saturation

/-!
# Loops that load the CPU

The children of `hz-test.c` and `latency-test.c`, and `softlockup.c`, count up a floating point
variable for as long as it is above a small number. It starts above it and grows, until the addend
is lost in the rounding: the variable then stays at a power of two, and the loop goes on.

* `spin_saturates`: the loops never end, and where their variable stays.
* `consumeCycles_never_return`: a child never returns to the loop that forks.
* `softlockup_returns_iff`: `main` returns only when it does not come to its loop.
-/

namespace DebugCode.CpuLoad

open Lib

open DebugCode.LatencyTest (double)

/-- Rounding to a `float`. -/
def float : ℚ → ℚ := roundNearest 24

/-- The variable of a loop, and the number of rounds in `i`. -/
structure Spin where
  dummy : ℚ
  i : BitVec 64

/-- `dummy += ..; i++;` -/
def Spin.step (add : ℚ → ℚ) (s : Spin) : Spin := ⟨add s.dummy, s.i + 1⟩

/-- `while (dummy > limit)`, from `start` on. -/
def spin (add : ℚ → ℚ) (limit start : ℚ) (fuel : ℕ) : Option Spin :=
  whileLoop (fun s => limit < s.dummy) (Spin.step add) fuel ⟨start, 0⟩

theorem dummy_iterate (add : ℚ → ℚ) (s : Spin) (k : ℕ) :
    ((Spin.step add)^[k] s).dummy = add^[k] s.dummy := by
  induction k generalizing s with
  | zero => rfl
  | succ k ih => rw [Function.iterate_succ_apply, ih, Function.iterate_succ_apply, Spin.step]

/-- The loop never ends, and its variable comes to `top` and stays there. -/
structure Endless (add : ℚ → ℚ) (limit start top : ℚ) : Prop where
  never : ∀ fuel, spin add limit start fuel = none
  stays : ∃ n, ∀ k, n ≤ k → ((Spin.step add)^[k] ⟨start, 0⟩).dummy = top

theorem spin_saturates {add : ℚ → ℚ} {I : ℚ → Prop} {limit start top d : ℚ}
    (hSaturates : Saturates add I top d) (hStart : I start) (hLe : start ≤ top)
    (hLimit : limit < start) : Endless add limit start top where
  never fuel := by
    apply whileLoop_diverges (I := fun s : Spin => ∃ k, s.dummy = add^[k] start)
    · rintro s ⟨k, hk⟩
      rw [hk]
      exact hLimit.trans_le (hSaturates.iterate_mem hStart hLe k).2.1
    · rintro s ⟨k, hk⟩
      refine ⟨k + 1, ?_⟩
      rw [Function.iterate_succ_apply', ← hk, Spin.step]
    · exact ⟨0, rfl⟩
  stays := by
    obtain ⟨n, hn⟩ := hSaturates.exists_iterate_eq hStart hLe
    refine ⟨n, fun k hLater => ?_⟩
    rw [dummy_iterate]
    exact hn k hLater

/-! ## The loops -/

/-- A literal lies between two doubles that the number written lies between. -/
theorem double_mem {lo hi x : ℚ} (hLo : Representable 53 lo) (hHi : Representable 53 hi)
    (hLow : lo ≤ x) (hHigh : x ≤ hi) : lo ≤ double x ∧ double x ≤ hi :=
  ⟨le_roundNearest (by decide) hLo hLow, roundNearest_le (by decide) hHi hHigh⟩

/-- `while (dummy > 0.0) { dummy += 0.0000037; i++; }` with `double dummy = 0.000001` -/
def latencyAdd (x : ℚ) : ℚ := double (x + double (37 / 10 ^ 7))

/-- `cpu_consume_cycles` of `latency-test.c`: its result is an `int`. -/
def latencyConsumeCycles (fuel : ℕ) : Option (BitVec 32) :=
  (spin latencyAdd 0 (double (1 / 10 ^ 6)) fuel).map fun s => s.i.setWidth 32

/-- The same loop with `float dummy`: the sum is one of doubles. -/
def hzAdd (x : ℚ) : ℚ := float (double (x + double (37 / 10 ^ 7)))

/-- `cpu_consume_cycles` of `hz-test.c`. -/
def hzConsumeCycles (fuel : ℕ) : Option Unit :=
  (spin hzAdd 0 (float (double (1 / 10 ^ 6))) fuel).map fun _ => ()

/-- `d += 0.000002` -/
def softlockupAdd (x : ℚ) : ℚ := double (x + double (2 / 10 ^ 6))

/-- How `main` of `softlockup.c` ends. -/
inductive Exit
  | notRoot
  | noSched
  | success
  deriving DecidableEq

/-- `main` of `softlockup.c`, with what `getuid` and `sched_setscheduler` return. -/
def softlockup (uid : BitVec 32) (setscheduler : Int) (fuel : ℕ) : Option Exit :=
  if uid ≠ 0 then some .notRoot
  else if setscheduler = -1 then some .noSched
  else (spin softlockupAdd (double (1 / 10 ^ 7)) (double (1 / 10 ^ 4)) fuel).map fun _ => .success

/-! ## They never end -/

theorem representable_small (m : ℤ) (e : ℤ) (hSmall : |m| ≤ 63) :
    Representable 53 (m * 2 ^ e) :=
  representable_of_abs_le (by decide) e (hSmall.trans (by norm_num))

theorem double_addend : 3 / 4 * 2 ^ (-18 : ℤ) ≤ double (37 / 10 ^ 7) ∧
    double (37 / 10 ^ 7) ≤ 63 / 64 * 2 ^ (-18 : ℤ) := by
  have hMem := double_mem (x := 37 / 10 ^ 7) (representable_small 3 (-20) (by decide))
    (representable_small 63 (-24) (by decide)) (by norm_num) (by norm_num)
  norm_num at hMem ⊢
  exact hMem

theorem latency_endless : Endless latencyAdd 0 (double (1 / 10 ^ 6)) (2 ^ (35 : ℤ)) := by
  have hStart : double (1 / 10 ^ 6) ≤ 2 ^ (35 : ℤ) :=
    roundNearest_le (by decide) (representable_zpow (by decide) 35) (by norm_num)
  have hPos : 0 < double (1 / 10 ^ 6) := roundNearest_pos (by decide) (by norm_num)
  obtain ⟨hLow, hHigh⟩ := double_addend
  have hPlace : (0 : ℚ) < 2 ^ (-18 : ℤ) := zpow_pos two_pos _
  have hSaturates := saturates_add (p := 53) (k := 35) (by decide) hPos
    (show 2 ^ (-18 : ℤ) / 2 < double (37 / 10 ^ 7) by linarith)
    (show double (37 / 10 ^ 7) < 2 ^ (-18 : ℤ) by linarith)
  exact spin_saturates hSaturates ⟨representable_roundNearest (by decide) _, le_rfl⟩ hStart hPos

theorem hz_endless : Endless hzAdd 0 (float (double (1 / 10 ^ 6))) (2 ^ (6 : ℤ)) := by
  have hDouble : 0 < double (1 / 10 ^ 6) ∧ double (1 / 10 ^ 6) ≤ 2 ^ (6 : ℤ) :=
    ⟨roundNearest_pos (by decide) (by norm_num),
      roundNearest_le (by decide) (representable_zpow (by decide) 6) (by norm_num)⟩
  have hStart : float (double (1 / 10 ^ 6)) ≤ 2 ^ (6 : ℤ) :=
    roundNearest_le (by decide) (representable_zpow (by decide) 6) hDouble.2
  have hPos : 0 < float (double (1 / 10 ^ 6)) := roundNearest_pos (by decide) hDouble.1
  have hSaturates := saturates_add_twice (p := 24) (q := 53) (k := 6) (by decide) hPos (by decide)
    double_addend.1 double_addend.2
  exact spin_saturates hSaturates ⟨representable_roundNearest (by decide) _, le_rfl⟩ hStart hPos

theorem softlockup_endless : Endless softlockupAdd (double (1 / 10 ^ 7)) (double (1 / 10 ^ 4))
    (2 ^ (35 : ℤ)) := by
  have hStart : double (1 / 10 ^ 4) ≤ 2 ^ (35 : ℤ) :=
    roundNearest_le (by decide) (representable_zpow (by decide) 35) (by norm_num)
  have hLimit : double (1 / 10 ^ 7) ≤ 2 ^ (-20 : ℤ) :=
    roundNearest_le (by decide) (representable_zpow (by decide) (-20)) (by norm_num)
  have hAbove : 2 ^ (-14 : ℤ) ≤ double (1 / 10 ^ 4) :=
    le_roundNearest (by decide) (representable_zpow (by decide) (-14)) (by norm_num)
  have hOrder : (2 : ℚ) ^ (-20 : ℤ) < 2 ^ (-14 : ℤ) := by norm_num
  have hPos : 0 < double (1 / 10 ^ 4) := roundNearest_pos (by decide) (by norm_num)
  have hMem := double_mem (x := 2 / 10 ^ 6) (representable_small 33 (-24) (by decide))
    (representable_small 63 (-24) (by decide)) (by norm_num) (by norm_num)
  have hLow : (2 : ℚ) ^ (-18 : ℤ) / 2 < (33 : ℤ) * 2 ^ (-24 : ℤ) := by norm_num
  have hHigh : ((63 : ℤ) : ℚ) * 2 ^ (-24 : ℤ) < 2 ^ (-18 : ℤ) := by norm_num
  have hSaturates := saturates_add (p := 53) (k := 35) (by decide) hPos
    (hLow.trans_le hMem.1) (hMem.2.trans_lt hHigh)
  exact spin_saturates hSaturates ⟨representable_roundNearest (by decide) _, le_rfl⟩ hStart
    (hLimit.trans_lt (hOrder.trans_le hAbove))

/-- No child comes back from `cpu_consume_cycles` to go on forking. Its variable ends at `2 ^ 35`,
where it is a `double`, and at 64, where it is a `float`. -/
theorem consumeCycles_never_return :
    (∀ fuel, latencyConsumeCycles fuel = none) ∧ (∀ fuel, hzConsumeCycles fuel = none) ∧
      (∃ n, ∀ k, n ≤ k → latencyAdd^[k] (double (1 / 10 ^ 6)) = 2 ^ 35) ∧
        ∃ n, ∀ k, n ≤ k → hzAdd^[k] (float (double (1 / 10 ^ 6))) = 64 := by
  refine ⟨fun fuel => ?_, fun fuel => ?_, ?_, ?_⟩
  · rw [latencyConsumeCycles, latency_endless.never, Option.map_none]
  · rw [hzConsumeCycles, hz_endless.never, Option.map_none]
  · obtain ⟨n, hn⟩ := latency_endless.stays
    refine ⟨n, fun k hLater => ?_⟩
    have hTop := hn k hLater
    rw [dummy_iterate] at hTop
    exact_mod_cast hTop
  · obtain ⟨n, hn⟩ := hz_endless.stays
    refine ⟨n, fun k hLater => ?_⟩
    have hTop := hn k hLater
    rw [dummy_iterate] at hTop
    rw [hTop]
    norm_num

/-- `main` ends only where it has no privilege to make its process a real-time one. -/
theorem softlockup_returns_iff (uid : BitVec 32) (setscheduler : Int) (code : Exit) :
    (∃ fuel, softlockup uid setscheduler fuel = some code) ↔
      (uid ≠ 0 ∧ code = .notRoot) ∨ (uid = 0 ∧ setscheduler = -1 ∧ code = .noSched) := by
  have hLoop : ∀ fuel, softlockup uid setscheduler fuel =
      if uid ≠ 0 then some .notRoot else if setscheduler = -1 then some .noSched else none := by
    intro fuel
    rw [softlockup, softlockup_endless.never, Option.map_none]
  constructor
  · rintro ⟨fuel, hReturns⟩
    rw [hLoop] at hReturns
    split_ifs at hReturns with hUser hSched
    · exact Or.inl ⟨hUser, (Option.some.inj hReturns).symm⟩
    · exact Or.inr ⟨not_not.mp hUser, hSched, (Option.some.inj hReturns).symm⟩
  · rintro (⟨hUser, rfl⟩ | ⟨hRoot, hSched, rfl⟩)
    · exact ⟨0, by rw [hLoop, if_pos hUser]⟩
    · exact ⟨0, by rw [hLoop, if_neg (not_not.mpr hRoot), if_pos hSched]⟩

end DebugCode.CpuLoad
