import DebugCode.Lib.Loop
import DebugCode.Lib.Rounding
import Mathlib.Analysis.Real.Sqrt

/-!
# The square root of the latency test

`newton_sqrt` bisects until the interval is shorter than a fixed tolerance. Every operation
is computed exactly and then rounded by `rnd`, so that the same definition is the function
over the doubles (`rnd` is `double`) and over the rationals (`rnd` is `id`).

Over the rationals the interval keeps a bracket around the root and halves in every round.
Over the doubles it shrinks as long as a double lies inside. Above `2 ^ 13` neighbouring
doubles are further apart than the tolerance, so the loop for a root up there never stops.
-/

namespace DebugCode.LatencyTest

open Lib

/-- The variables `lo` and `hi`. -/
structure Interval where
  lo : ℚ
  hi : ℚ

/-- Rounding to a `double`. -/
def double : ℚ → ℚ := roundNearest 53

section

variable (rnd : ℚ → ℚ)

/-- `const double precision = 1.0e-12` -/
def precision : ℚ := rnd (1 / 10 ^ 12)

def initial (n : ℚ) : Interval where
  lo := if n < 1 then n else 1
  hi := if n < 1 then 1 else n

def midpoint (s : Interval) : ℚ := rnd (rnd (s.lo + s.hi) / 2)

/-- The body of the loop. -/
def bisect (n : ℚ) (s : Interval) : Interval :=
  if rnd (midpoint rnd s * midpoint rnd s) > n then { s with hi := midpoint rnd s }
  else { s with lo := midpoint rnd s }

/-- The loop, for at most `fuel` rounds. -/
def narrow (fuel : ℕ) (n : ℚ) : Option Interval :=
  whileLoop (fun s => rnd (s.hi - s.lo) > precision rnd) (bisect rnd n) fuel (initial n)

def newtonSqrt (fuel : ℕ) (n : ℚ) : Option ℚ := (narrow rnd fuel n).map (midpoint rnd)

/-- `total / (double)len` after the first loop; `total` is a sum rounded at every term. -/
def meanOf (values : List ℚ) : ℚ :=
  rnd (values.foldl (fun total v => rnd (total + v)) 0 / values.length)

/-- `total / (double)len` after the second loop. -/
def varianceOf (values : List ℚ) : ℚ :=
  let mean := meanOf rnd values
  rnd (values.foldl (fun total v => rnd (total + rnd (rnd (v - mean) * rnd (v - mean)))) 0 /
    values.length)

/-- The mean and the standard deviation. The callers pass arrays of a fixed positive length. -/
def calcMeanAndStddev (fuel : ℕ) (values : List ℚ) : Option (ℚ × ℚ) :=
  (newtonSqrt rnd fuel (varianceOf rnd values)).map fun stddev => (meanOf rnd values, stddev)

end

/-! ## Exact arithmetic -/

/-- The ends of the interval enclose the square root of `n`. -/
structure Brackets (n : ℚ) (s : Interval) : Prop where
  lo_nonneg : 0 ≤ s.lo
  lo_le_hi : s.lo ≤ s.hi
  lo_sq_le : s.lo * s.lo ≤ n
  le_hi_sq : n ≤ s.hi * s.hi

theorem midpoint_id (s : Interval) : midpoint id s = (s.lo + s.hi) / 2 := rfl

theorem initial_brackets {n : ℚ} (hn : 0 ≤ n) : Brackets n (initial n) := by
  rcases lt_or_ge n 1 with hSmall | hLarge
  · rw [initial, if_pos hSmall, if_pos hSmall]
    exact ⟨hn, hSmall.le, mul_le_of_le_one_left hn hSmall.le, by linarith⟩
  · rw [initial, if_neg hLarge.not_gt, if_neg hLarge.not_gt]
    exact ⟨zero_le_one, hLarge, by linarith, le_mul_of_one_le_left hn hLarge⟩

theorem Brackets.bisect {n : ℚ} {s : Interval} (hs : Brackets n s) :
    Brackets n (bisect id n s) := by
  have hOrder := hs.lo_le_hi
  have hLow : s.lo ≤ midpoint id s := by rw [midpoint_id]; linarith
  have hHigh : midpoint id s ≤ s.hi := by rw [midpoint_id]; linarith
  rw [LatencyTest.bisect]
  split_ifs with hAbove
  · exact ⟨hs.lo_nonneg, hLow, hs.lo_sq_le, le_of_lt hAbove⟩
  · exact ⟨hs.lo_nonneg.trans hLow, hHigh, not_lt.mp hAbove, hs.le_hi_sq⟩

/-- Every round halves the interval. -/
theorem bisect_length (n : ℚ) (s : Interval) :
    (bisect id n s).hi - (bisect id n s).lo = (s.hi - s.lo) / 2 := by
  rw [bisect]
  split_ifs
  · show midpoint id s - s.lo = _
    rw [midpoint_id]
    ring
  · show s.hi - midpoint id s = _
    rw [midpoint_id]
    ring

theorem narrow_id_total (n : ℚ) : ∃ k s, ∀ fuel, k ≤ fuel → narrow id fuel n = some s := by
  obtain ⟨k, hk⟩ := pow_unbounded_of_one_lt
    (((initial n).hi - (initial n).lo) / precision id) one_lt_two
  refine ⟨k, whileLoop_total (I := fun k s => s.hi - s.lo ≤ precision id * 2 ^ k) ?_ ?_ ?_⟩
  · intro s hs
    rw [pow_zero, mul_one] at hs
    exact not_lt.mpr hs
  · intro k s hs _
    rw [bisect_length]
    rw [pow_succ] at hs
    linarith
  · have hPos : 0 < precision id := by norm_num [precision]
    rw [div_lt_iff₀ hPos] at hk
    linarith

theorem narrow_id_spec {fuel : ℕ} {n : ℚ} (hn : 0 ≤ n) {s : Interval}
    (hStop : narrow id fuel n = some s) : Brackets n s ∧ s.hi - s.lo ≤ 1 / 10 ^ 12 := by
  obtain ⟨hs, hTest⟩ := whileLoop_spec (fun _ hs _ => hs.bisect) (initial_brackets hn) hStop
  exact ⟨hs, not_lt.mp hTest⟩

/-- The midpoint of a bracket is at most half its length away from the root. -/
theorem Brackets.abs_midpoint_sub_sqrt_le {n : ℚ} {s : Interval} (hs : Brackets n s) :
    |(midpoint id s : ℝ) - √(n : ℝ)| ≤ (s.hi - s.lo : ℚ) / 2 := by
  have hLow : (s.lo : ℝ) ≤ √(n : ℝ) := by
    apply Real.le_sqrt_of_sq_le
    rw [sq]
    exact_mod_cast hs.lo_sq_le
  have hHigh : √(n : ℝ) ≤ (s.hi : ℝ) := by
    apply Real.sqrt_le_iff.mpr
    rw [sq]
    exact ⟨by exact_mod_cast hs.lo_nonneg.trans hs.lo_le_hi, by exact_mod_cast hs.le_hi_sq⟩
  rw [midpoint_id, abs_le]
  push_cast
  constructor <;> linarith

/-- Over the rationals `newton_sqrt` returns, with any fuel that is enough, the midpoint of
a bracket of the root that is no longer than the tolerance. -/
theorem newtonSqrt_exact (n : ℚ) (hn : 0 ≤ n) :
    ∃ lo hi : ℚ, (∃ k, ∀ fuel, k ≤ fuel → newtonSqrt id fuel n = some ((lo + hi) / 2)) ∧
      lo ≤ hi ∧ lo * lo ≤ n ∧ n ≤ hi * hi ∧ hi - lo ≤ 1 / 10 ^ 12 ∧
      |(((lo + hi) / 2 : ℚ) : ℝ) - √(n : ℝ)| ≤ 5 / 10 ^ 13 := by
  obtain ⟨k, s, hStop⟩ := narrow_id_total n
  obtain ⟨hs, hShort⟩ := narrow_id_spec hn (hStop k le_rfl)
  refine ⟨s.lo, s.hi, ⟨k, fun fuel hFuel => ?_⟩, hs.lo_le_hi, hs.lo_sq_le, hs.le_hi_sq, hShort, ?_⟩
  · rw [newtonSqrt, hStop fuel hFuel]
    rfl
  · have hHalf : ((s.hi - s.lo : ℚ) : ℝ) / 2 ≤ 5 / 10 ^ 13 := by
      have hReal : ((s.hi - s.lo : ℚ) : ℝ) ≤ ((1 / 10 ^ 12 : ℚ) : ℝ) := Rat.cast_le.mpr hShort
      rw [Rat.cast_div, Rat.cast_pow, Rat.cast_one, Rat.cast_ofNat] at hReal
      linarith
    exact hs.abs_midpoint_sub_sqrt_le.trans hHalf

/-- The root of 2, for which the upper end moves first, to 3/2, and then the lower one, to
5/4. -/
theorem newtonSqrt_exact_two : ∃ root : ℚ,
    (∃ k, ∀ fuel, k ≤ fuel → newtonSqrt id fuel 2 = some root) ∧
      |(root : ℝ) - √((2 : ℚ) : ℝ)| ≤ 5 / 10 ^ 13 := by
  obtain ⟨lo, hi, hReturns, -, -, -, -, hError⟩ := newtonSqrt_exact 2 (by norm_num)
  exact ⟨(lo + hi) / 2, hReturns, hError⟩

/-! ## Doubles -/

theorem significand_pos : 0 < 53 := by decide

/-- Between which powers of two the tolerance lies. -/
theorem precision_double : 2 ^ (-40 : ℤ) ≤ precision double ∧ precision double < 2 ^ (-39 : ℤ) := by
  constructor
  · exact le_roundNearest significand_pos (representable_zpow significand_pos _) (by norm_num)
  · have hThree : Representable 53 (3 * 2 ^ (-41 : ℤ)) := ⟨3, -41, by norm_num, by norm_num⟩
    have hLe : precision double ≤ 3 * 2 ^ (-41 : ℤ) :=
      roundNearest_le significand_pos hThree (by norm_num)
    exact hLe.trans_lt (by norm_num)

/-- What every round keeps: the ends are doubles, and the lower one is not above the root. -/
structure DoubleEnds (n : ℚ) (s : Interval) : Prop where
  lo_double : Representable 53 s.lo
  hi_double : Representable 53 s.hi
  lo_nonneg : 0 ≤ s.lo
  lo_le_hi : s.lo ≤ s.hi
  lo_sq_le : double (s.lo * s.lo) ≤ n

theorem representable_midpoint (s : Interval) : Representable 53 (midpoint double s) :=
  representable_roundedMidpoint significand_pos s.lo s.hi

theorem representable_one : Representable 53 1 := representable_zpow significand_pos 0

theorem initial_doubleEnds {n : ℚ} (hRep : Representable 53 n) (hn : 0 ≤ n) :
    DoubleEnds n (initial n) := by
  rcases lt_or_ge n 1 with hSmall | hLarge
  · rw [initial, if_pos hSmall, if_pos hSmall]
    exact ⟨hRep, representable_one, hn, hSmall.le,
      roundNearest_le significand_pos hRep (mul_le_of_le_one_left hn hSmall.le)⟩
  · rw [initial, if_neg hLarge.not_gt, if_neg hLarge.not_gt]
    refine ⟨representable_one, hRep, zero_le_one, hLarge, ?_⟩
    exact roundNearest_le significand_pos hRep (by linarith)

namespace DoubleEnds

variable {n : ℚ} {s : Interval}

theorem midpoint_mem (hs : DoubleEnds n s) :
    s.lo ≤ midpoint double s ∧ midpoint double s ≤ s.hi :=
  roundedMidpoint_mem significand_pos hs.lo_double hs.hi_double hs.lo_le_hi

protected theorem bisect (hs : DoubleEnds n s) : DoubleEnds n (bisect double n s) := by
  obtain ⟨hLow, hHigh⟩ := hs.midpoint_mem
  rw [LatencyTest.bisect]
  split_ifs with hAbove
  · exact ⟨hs.lo_double, representable_midpoint s, hs.lo_nonneg, hLow, hs.lo_sq_le⟩
  · exact ⟨representable_midpoint s, hs.hi_double, hs.lo_nonneg.trans hLow, hHigh,
      not_lt.mp hAbove⟩

/-- The loop for a root below `2 ^ 13` has its lower end there too. -/
theorem lo_lt (hs : DoubleEnds n s) (hn : n < 2 ^ 26) : s.lo < 2 ^ (13 : ℤ) := by
  by_contra hLarge
  rw [not_lt] at hLarge
  have hSquare : (2 : ℚ) ^ (26 : ℤ) ≤ double (s.lo * s.lo) := by
    apply le_roundNearest significand_pos (representable_zpow significand_pos 26)
    nlinarith
  have hBelow := hs.lo_sq_le
  norm_num at hSquare
  linarith

/-- While the loop goes on below `2 ^ 13`, the next double after `lo` is below `hi`. -/
theorem midpoint_strict (hs : DoubleEnds n s) (hn : n < 2 ^ 26) (hPos : 0 < s.lo)
    (hTest : double (s.hi - s.lo) > precision double) :
    s.lo < midpoint double s ∧ midpoint double s < s.hi := by
  have hApart : 2 ^ (-40 : ℤ) < s.hi - s.lo :=
    lt_of_lt_roundNearest significand_pos (representable_zpow significand_pos _)
      (precision_double.1.trans_lt hTest)
  have hUlp : ulp 53 s.lo ≤ 2 ^ (13 - (53 : ℕ) : ℤ) := ulp_le_of_lt_zpow hPos (hs.lo_lt hn)
  have hExponent : (13 - (53 : ℕ) : ℤ) = -40 := by norm_num
  rw [hExponent] at hUlp
  have hUlpPos := ulp_pos 53 s.lo
  exact roundedMidpoint_strict significand_pos (hs.lo_double.add_ulp significand_pos hPos)
    (by linarith) (by linarith)

/-- Such a round takes away at least the distance of neighbouring doubles at `a`. -/
theorem bisect_shorter (hs : DoubleEnds n s) {a : ℚ} (ha : 0 < a) (hLe : a ≤ s.lo)
    (hLow : s.lo < midpoint double s) (hHigh : midpoint double s < s.hi) :
    a ≤ (bisect double n s).lo ∧
      (bisect double n s).hi - (bisect double n s).lo ≤ s.hi - s.lo - ulp 53 a := by
  have hMid := representable_midpoint s
  rw [LatencyTest.bisect]
  split_ifs
  · have hGap := hMid.ulp_le_sub hs.hi_double ha (hLe.trans hLow.le) hHigh
    exact ⟨hLe, by linarith⟩
  · have hGap := hs.lo_double.ulp_le_sub hMid ha hLe hLow
    exact ⟨hLe.trans hLow.le, by linarith⟩

end DoubleEnds

/-- A loop whose ends are no further apart than `2 ^ -40` is over. -/
theorem not_test_of_le {x : ℚ} (hLe : x ≤ 2 ^ (-40 : ℤ)) : ¬ double x > precision double :=
  not_lt.mpr ((roundNearest_le significand_pos (representable_zpow significand_pos _) hLe).trans
    precision_double.1)

theorem narrow_double_of_pos {n : ℚ} (hRep : Representable 53 n) (hPos : 0 < n)
    (hn : n < 2 ^ 26) : ∃ k s, ∀ fuel, k ≤ fuel → narrow double fuel n = some s := by
  have hStart := initial_doubleEnds hRep hPos.le
  have hFirst : 0 < (initial n).lo := by
    rw [initial]
    split_ifs
    · exact hPos
    · exact one_pos
  have hUlp := ulp_pos 53 (initial n).lo
  obtain ⟨k, hk⟩ := exists_nat_ge (((initial n).hi - (initial n).lo) / ulp 53 (initial n).lo)
  refine ⟨k, whileLoop_total (I := fun k s => DoubleEnds n s ∧ (initial n).lo ≤ s.lo ∧
    s.hi - s.lo ≤ k * ulp 53 (initial n).lo) ?_ ?_ ⟨hStart, le_rfl, (div_le_iff₀ hUlp).mp hk⟩⟩
  · rintro s ⟨-, -, hShort⟩
    rw [Nat.cast_zero, zero_mul] at hShort
    exact not_test_of_le (hShort.trans (by norm_num))
  · rintro k s ⟨hs, hLe, hShort⟩ hTest
    obtain ⟨hLow, hHigh⟩ := hs.midpoint_strict hn (hFirst.trans_le hLe) hTest
    obtain ⟨hNext, hShorter⟩ := hs.bisect_shorter hFirst hLe hLow hHigh
    refine ⟨hs.bisect, hNext, ?_⟩
    push_cast at hShort
    linarith

/-- For `0` the lower end stays and the upper one is halved, without rounding. -/
theorem narrow_double_zero : ∃ k s, ∀ fuel, k ≤ fuel → narrow double fuel 0 = some s := by
  refine ⟨40, whileLoop_total (I := fun k s => s.lo = 0 ∧ 0 < s.hi ∧ Representable 53 s.hi ∧
    s.hi ≤ 2 ^ (-40 : ℤ) * 2 ^ k) ?_ ?_ ?_⟩
  · rintro s ⟨hLo, -, -, hShort⟩
    rw [pow_zero, mul_one] at hShort
    rw [hLo, sub_zero]
    exact not_test_of_le hShort
  · rintro k s ⟨hLo, hPos, hRep, hShort⟩ -
    have hMid : midpoint double s = s.hi / 2 := by
      rw [midpoint, hLo, zero_add, double, roundNearest_half significand_pos,
        roundNearest_eq_self significand_pos hRep]
    have hSquare : double (s.hi / 2 * (s.hi / 2)) > 0 :=
      roundNearest_pos significand_pos (by positivity)
    rw [bisect, hMid, if_pos hSquare]
    refine ⟨hLo, half_pos hPos, hRep.half, ?_⟩
    rw [pow_succ, ← mul_assoc] at hShort
    exact (div_le_iff₀ two_pos).mpr hShort
  · rw [initial, if_pos one_pos, if_pos one_pos]
    exact ⟨rfl, one_pos, representable_one, by norm_num⟩

/-- Above `2 ^ 13` neighbouring doubles are `2 ^ -39` apart, more than the tolerance. -/
theorem test_of_lt {x y : ℚ} (hx : Representable 53 x) (hy : Representable 53 y) (hLt : x < y)
    (hLarge : 2 ^ (13 : ℤ) < y) : double (y - x) > precision double := by
  have hGap : ∀ z, Representable 53 z → 2 ^ (13 : ℤ) ≤ z → z < y → 2 ^ (-39 : ℤ) ≤ y - z := by
    intro z hz hFrom hBelow
    have hUlp := hz.ulp_le_sub hy (zpow_pos two_pos 13) hFrom hBelow
    rwa [ulp_zpow] at hUlp
  have hApart : 2 ^ (-39 : ℤ) ≤ y - x := by
    rcases le_or_gt (2 ^ (13 : ℤ)) x with hHigh | hLow
    · exact hGap x hx hHigh hLt
    · linarith [hGap _ (representable_zpow significand_pos 13) le_rfl hLarge]
  exact precision_double.2.trans_le
    (le_roundNearest significand_pos (representable_zpow significand_pos _) hApart)

theorem narrow_double_diverges {n : ℚ} (hRep : Representable 53 n) (hn : 2 ^ 26 ≤ n)
    (fuel : ℕ) : narrow double fuel n = none := by
  have hPos : 0 ≤ n := le_trans (by norm_num) hn
  refine whileLoop_diverges (I := fun s => DoubleEnds n s ∧ n < double (s.hi * s.hi)) ?_ ?_
    ⟨initial_doubleEnds hRep hPos, ?_⟩ fuel
  · rintro s ⟨hs, hAbove⟩
    have hLt : s.lo < s.hi := by
      apply hs.lo_le_hi.lt_of_ne
      intro hSame
      have hBelow := hs.lo_sq_le
      rw [hSame] at hBelow
      exact hBelow.not_gt hAbove
    have hSquare : (2 : ℚ) ^ (26 : ℤ) < s.hi * s.hi :=
      lt_of_lt_roundNearest significand_pos (representable_zpow significand_pos 26)
        (lt_of_le_of_lt (by exact_mod_cast hn) hAbove)
    have hLarge : (2 : ℚ) ^ (13 : ℤ) < s.hi := by
      by_contra hSmall
      rw [not_lt] at hSmall
      have hNonneg := hs.lo_nonneg.trans hs.lo_le_hi
      nlinarith
    exact test_of_lt hs.lo_double hs.hi_double hLt hLarge
  · rintro s ⟨hs, hAbove⟩
    refine ⟨hs.bisect, ?_⟩
    rw [bisect]
    split_ifs with hMid
    · exact hMid
    · exact hAbove
  · have hHi : (initial n).hi = n := if_neg (by linarith)
    rw [hHi]
    have hDouble : 2 * n ≤ double (n * n) :=
      le_roundNearest significand_pos hRep.double (by nlinarith)
    linarith

/-! ## When the loop stops -/

/-- The loop over the doubles stops exactly for the numbers whose root is below `2 ^ 13`. -/
theorem narrow_double_stops_iff {n : ℚ} (hRep : Representable 53 n) (hn : 0 ≤ n) :
    (∃ fuel s, narrow double fuel n = some s) ↔ n < 2 ^ 26 := by
  constructor
  · rintro ⟨fuel, s, hStop⟩
    by_contra hLarge
    rw [narrow_double_diverges hRep (not_lt.mp hLarge)] at hStop
    cases hStop
  · intro hSmall
    obtain ⟨k, s, hStop⟩ : ∃ k s, ∀ fuel, k ≤ fuel → narrow double fuel n = some s := by
      rcases hn.eq_or_lt with rfl | hPos
      · exact narrow_double_zero
      · exact narrow_double_of_pos hRep hPos hSmall
    exact ⟨k, s, hStop k le_rfl⟩

theorem newtonSqrt_eq_some_iff {rnd : ℚ → ℚ} {fuel : ℕ} {n r : ℚ} :
    newtonSqrt rnd fuel n = some r ↔ ∃ s, narrow rnd fuel n = some s ∧ midpoint rnd s = r :=
  Option.map_eq_some_iff

/-- Over the doubles `newton_sqrt` returns, with some fuel, exactly below `2 ^ 26`. -/
theorem newtonSqrt_double_returns_iff (n : ℚ) (hRep : Representable 53 n) (hn : 0 ≤ n) :
    (∃ fuel r, newtonSqrt double fuel n = some r) ↔ n < 2 ^ 26 := by
  rw [← narrow_double_stops_iff hRep hn]
  constructor
  · rintro ⟨fuel, r, hReturn⟩
    obtain ⟨s, hStop, -⟩ := newtonSqrt_eq_some_iff.mp hReturn
    exact ⟨fuel, s, hStop⟩
  · rintro ⟨fuel, s, hStop⟩
    exact ⟨fuel, _, newtonSqrt_eq_some_iff.mpr ⟨s, hStop, rfl⟩⟩

theorem newtonSqrt_double_returns_three : ∃ fuel r, newtonSqrt double fuel 3 = some r :=
  (newtonSqrt_double_returns_iff 3 ⟨3, 0, by norm_num, by norm_num⟩ (by norm_num)).mpr
    (by norm_num)

/-- The root of `10 ^ 8` is never found. -/
theorem newtonSqrt_double_hangs :
    Representable 53 (10 ^ 8) ∧ ∀ fuel, newtonSqrt double fuel (10 ^ 8) = none := by
  have hRep : Representable 53 (10 ^ 8) := ⟨10 ^ 8, 0, by norm_num, by norm_num⟩
  refine ⟨hRep, fun fuel => ?_⟩
  rw [newtonSqrt, narrow_double_diverges hRep (by norm_num), Option.map_none]

theorem foldl_nonneg {values : List ℚ} {f : ℚ → ℚ} (hf : ∀ v, 0 ≤ f v) {total : ℚ}
    (hTotal : 0 ≤ total) : 0 ≤ values.foldl (fun total v => double (total + f v)) total := by
  induction values generalizing total with
  | nil => exact hTotal
  | cons v values ih =>
    exact ih (roundNearest_nonneg significand_pos (add_nonneg hTotal (hf v)))

theorem varianceOf_nonneg (values : List ℚ) : 0 ≤ varianceOf double values := by
  apply roundNearest_nonneg significand_pos
  apply div_nonneg _ (Nat.cast_nonneg _)
  exact foldl_nonneg (fun v => roundNearest_nonneg significand_pos (mul_self_nonneg _)) le_rfl

/-- The statistics of the test come back exactly when the computed variance is below
`2 ^ 26`. -/
theorem calcMeanAndStddev_returns_iff (values : List ℚ) :
    (∃ fuel r, calcMeanAndStddev double fuel values = some r) ↔
      varianceOf double values < 2 ^ 26 := by
  have hRep : Representable 53 (varianceOf double values) :=
    representable_roundNearest significand_pos _
  rw [← narrow_double_stops_iff hRep (varianceOf_nonneg values)]
  constructor
  · rintro ⟨fuel, r, hReturn⟩
    obtain ⟨stddev, hSqrt, -⟩ := Option.map_eq_some_iff.mp hReturn
    obtain ⟨s, hStop, -⟩ := newtonSqrt_eq_some_iff.mp hSqrt
    exact ⟨fuel, s, hStop⟩
  · rintro ⟨fuel, s, hStop⟩
    have hSqrt := newtonSqrt_eq_some_iff.mpr ⟨s, hStop, rfl⟩
    exact ⟨fuel, _, Option.map_eq_some_iff.mpr ⟨_, hSqrt, rfl⟩⟩

end DebugCode.LatencyTest
