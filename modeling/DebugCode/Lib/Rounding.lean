import Mathlib.Algebra.Order.Archimedean.Basic
import Mathlib.Data.Int.Log
import Mathlib.Data.Rat.Floor
import Mathlib.Tactic.FieldSimp
import Mathlib.Tactic.Linarith
import Mathlib.Tactic.NormNum
import Mathlib.Tactic.Ring

/-!
# Rounding to a binary significand

The dyadic rationals whose significand has at most `p` bits, with exponents of any size, and
the rounding to the nearest of them, ties to even. Only the significand is limited: there is
no underflow and no overflow.

* `representable_roundNearest`, `abs_roundNearest_sub_le`: the rounded value is
  representable, and no representable value is nearer. Everything else about the rounding
  follows from these two.
* `Representable.eq_mul_ulp`, `Representable.add_ulp`: from `x` on, the representable numbers
  are multiples of `ulp p x`, and `x + ulp p x` is one of them. So `ulp p x` is how far two
  of them are apart at least (`Representable.ulp_le_sub`).
* `roundedMidpoint_strict`: a rounded midpoint separates two numbers that are not neighbours.
-/

namespace DebugCode.Lib

/-- The numbers with a significand of `p` bits. -/
def Representable (p : ℕ) (x : ℚ) : Prop :=
  ∃ m e : ℤ, |m| < 2 ^ p ∧ x = m * 2 ^ e

/-- The nearest integer, of two equally near ones the even one. -/
def roundEven (x : ℚ) : ℤ :=
  if x - ⌊x⌋ < 1 / 2 then ⌊x⌋ else if 1 / 2 < x - ⌊x⌋ then ⌊x⌋ + 1 else ⌊x⌋ + ⌊x⌋ % 2

/-- The place value of the last of `p` bits, when the first one is that of `x`. -/
def ulp (p : ℕ) (x : ℚ) : ℚ := 2 ^ (Int.log 2 |x| - p + 1)

/-- The nearest number with a significand of `p` bits, ties to even. -/
def roundNearest (p : ℕ) (x : ℚ) : ℚ := roundEven (x / ulp p x) * ulp p x

/-! ## Rounding to an integer -/

theorem roundEven_bounds (x : ℚ) : ⌊x⌋ ≤ roundEven x ∧ roundEven x ≤ ⌊x⌋ + 1 := by
  rw [roundEven]
  split_ifs
  · omega
  · omega
  · omega

theorem abs_roundEven_sub_le (x : ℚ) : |(roundEven x : ℚ) - x| ≤ 1 / 2 := by
  have hLow := Int.floor_le x
  have hHigh := Int.lt_floor_add_one x
  rw [roundEven, abs_le]
  split_ifs with hBelow hAbove
  · constructor <;> linarith
  · push_cast
    constructor <;> linarith
  · rcases Int.emod_two_eq_zero_or_one ⌊x⌋ with hEven | hOdd
    · rw [hEven, add_zero]
      constructor <;> linarith
    · rw [hOdd]
      push_cast
      constructor <;> linarith

/-- No integer is nearer than the rounded one. -/
theorem roundEven_nearest (x : ℚ) (k : ℤ) : |(roundEven x : ℚ) - x| ≤ |(k : ℚ) - x| := by
  by_cases hSame : roundEven x = k
  · rw [hSame]
  · have hApart : (1 : ℚ) ≤ |(roundEven x : ℚ) - k| := by
      have hInt : 1 ≤ |roundEven x - k| := Int.one_le_abs (sub_ne_zero.mpr hSame)
      exact_mod_cast hInt
    have hHalf := abs_roundEven_sub_le x
    have hTriangle := abs_sub_le (roundEven x : ℚ) x k
    rw [abs_sub_comm x] at hTriangle
    linarith

/-! ## The place value of the last bit -/

theorem ulp_pos (p : ℕ) (x : ℚ) : 0 < ulp p x := zpow_pos two_pos _

theorem zpow_log_le {x : ℚ} (hPos : 0 < x) : (2 : ℚ) ^ Int.log 2 x ≤ x := by
  exact_mod_cast Int.zpow_log_le_self (b := 2) one_lt_two hPos

theorem lt_zpow_log_add_one (x : ℚ) : x < (2 : ℚ) ^ (Int.log 2 x + 1) := by
  exact_mod_cast Int.lt_zpow_succ_log_self (b := 2) one_lt_two x

theorem zpow_log_eq_mul_ulp {p : ℕ} (hp : 0 < p) (x : ℚ) :
    (2 : ℚ) ^ Int.log 2 |x| = (2 ^ (p - 1) : ℤ) * ulp p x := by
  push_cast
  rw [ulp, ← zpow_natCast, ← zpow_add₀ two_ne_zero]
  congr 1
  omega

theorem abs_lt_mul_ulp (p : ℕ) (x : ℚ) : |x| < 2 ^ p * ulp p x := by
  rw [ulp, ← zpow_natCast, ← zpow_add₀ two_ne_zero]
  have hExponent : (p : ℤ) + (Int.log 2 |x| - p + 1) = Int.log 2 |x| + 1 := by ring
  rw [hExponent]
  exact lt_zpow_log_add_one |x|

theorem mul_zpow_eq {m e e' : ℤ} (hLe : e' ≤ e) : ∃ k : ℤ, (m : ℚ) * 2 ^ e = k * 2 ^ e' := by
  obtain ⟨d, rfl⟩ := Int.le.dest hLe
  refine ⟨m * 2 ^ d, ?_⟩
  push_cast
  rw [add_comm, zpow_add₀ two_ne_zero, zpow_natCast, mul_assoc]

/-! ## Representable numbers -/

section

variable {p : ℕ} {x y : ℚ}

theorem representable_zero : Representable p 0 :=
  ⟨0, 0, by rw [abs_zero]; exact pow_pos two_pos p, by rw [Int.cast_zero, zero_mul]⟩

/-- A significand that has just grown too long ends in zeros. -/
theorem representable_of_abs_le (hp : 0 < p) {m : ℤ} (e : ℤ) (hLe : |m| ≤ 2 ^ p) :
    Representable p (m * 2 ^ e) := by
  rcases hLe.lt_or_eq with hLt | hEq
  · exact ⟨m, e, hLt, rfl⟩
  · have hOne : (1 : ℤ) < 2 ^ p := one_lt_pow₀ one_lt_two hp.ne'
    rcases abs_eq (by positivity) |>.mp hEq with rfl | rfl
    · refine ⟨1, e + p, by simpa using hOne, ?_⟩
      rw [zpow_add₀ two_ne_zero, zpow_natCast]
      push_cast
      ring
    · refine ⟨-1, e + p, by simpa using hOne, ?_⟩
      rw [zpow_add₀ two_ne_zero, zpow_natCast]
      push_cast
      ring

theorem representable_zpow (hp : 0 < p) (e : ℤ) : Representable p (2 ^ e) := by
  have hOne : |(1 : ℤ)| ≤ 2 ^ p := by
    rw [abs_one]
    exact one_le_pow₀ one_le_two
  simpa only [Int.cast_one, one_mul] using representable_of_abs_le hp e hOne

theorem Representable.mul_zpow (hx : Representable p x) (e : ℤ) :
    Representable p (x * 2 ^ e) := by
  obtain ⟨m, e', hLt, rfl⟩ := hx
  exact ⟨m, e' + e, hLt, by rw [zpow_add₀ two_ne_zero, mul_assoc]⟩

theorem Representable.half (hx : Representable p x) : Representable p (x / 2) := by
  have hHalf : x / 2 = x * 2 ^ (-1 : ℤ) := by rw [zpow_neg_one, div_eq_mul_inv]
  rw [hHalf]
  exact hx.mul_zpow (-1)

theorem Representable.double (hx : Representable p x) : Representable p (2 * x) := by
  have hDouble : 2 * x = x * 2 ^ (1 : ℤ) := by rw [zpow_one, mul_comm]
  rw [hDouble]
  exact hx.mul_zpow 1

/-- From the power of two below `x` on, the representable numbers are multiples of the
place value of the last bit of `x`. -/
theorem Representable.eq_mul_ulp (hy : Representable p y) (hLe : 2 ^ Int.log 2 |x| ≤ |y|) :
    ∃ k : ℤ, y = k * ulp p x := by
  obtain ⟨m, e, hLt, rfl⟩ := hy
  rcases le_or_gt (Int.log 2 |x| - p + 1) e with hHigh | hLow
  · exact mul_zpow_eq hHigh
  · have hCast : |(m : ℚ)| < 2 ^ p := by exact_mod_cast hLt
    have hSmall : |(m : ℚ) * 2 ^ e| < 2 ^ Int.log 2 |x| := by
      calc |(m : ℚ) * 2 ^ e| = |(m : ℚ)| * 2 ^ e := by
            rw [abs_mul, abs_of_pos (zpow_pos (two_pos : (0 : ℚ) < 2) e)]
        _ < 2 ^ p * 2 ^ e := mul_lt_mul_of_pos_right hCast (zpow_pos two_pos e)
        _ = 2 ^ ((p : ℤ) + e) := by rw [zpow_add₀ two_ne_zero, zpow_natCast]
        _ ≤ 2 ^ Int.log 2 |x| := zpow_le_zpow_right₀ one_le_two (by omega)
    exact absurd hLe hSmall.not_ge

theorem ulp_zpow (e : ℤ) : ulp p (2 ^ e) = 2 ^ (e - p + 1) := by
  have hLog : Int.log 2 ((2 : ℚ) ^ e) = e := by
    exact_mod_cast Int.log_zpow (R := ℚ) (b := 2) one_lt_two e
  rw [ulp, abs_of_pos (zpow_pos two_pos e), hLog]

/-- Below a power of two the place value is at most that of the next smaller one. -/
theorem ulp_le_of_lt_zpow (hPos : 0 < x) {e : ℤ} (hLt : x < 2 ^ e) :
    ulp p x ≤ 2 ^ (e - p) := by
  have hLog : Int.log 2 x < e := by
    apply (zpow_lt_zpow_iff_right₀ (one_lt_two : (1 : ℚ) < 2)).mp
    exact (zpow_log_le hPos).trans_lt hLt
  rw [ulp, abs_of_pos hPos]
  exact zpow_le_zpow_right₀ one_le_two (by omega)

/-- Two representable numbers from `z` on are at least the place value of `z` apart. -/
theorem Representable.ulp_le_sub (hx : Representable p x) (hy : Representable p y) {z : ℚ}
    (hPos : 0 < z) (hzx : z ≤ x) (hxy : x < y) : ulp p z ≤ y - x := by
  have hPower : (2 : ℚ) ^ Int.log 2 |z| ≤ x := by
    rw [abs_of_pos hPos]
    exact (zpow_log_le hPos).trans hzx
  obtain ⟨k, hk⟩ := hx.eq_mul_ulp (hPower.trans (le_abs_self x))
  obtain ⟨l, hl⟩ := hy.eq_mul_ulp (hPower.trans (hxy.le.trans (le_abs_self y)))
  have hUlp := ulp_pos p z
  have hLt : k < l := by
    rw [hk, hl] at hxy
    exact_mod_cast lt_of_mul_lt_mul_right hxy hUlp.le
  have hStep : (k : ℚ) + 1 ≤ l := by exact_mod_cast hLt
  calc ulp p z = (k + 1) * ulp p z - k * ulp p z := by ring
    _ ≤ l * ulp p z - k * ulp p z :=
      sub_le_sub_right (mul_le_mul_of_nonneg_right hStep hUlp.le) _
    _ = y - x := by rw [hk, hl]

/-- The next representable number after a positive one. -/
theorem Representable.add_ulp (hp : 0 < p) (hx : Representable p x) (hPos : 0 < x) :
    Representable p (x + ulp p x) := by
  have hAbs : |x| = x := abs_of_pos hPos
  obtain ⟨k, hk⟩ := hx.eq_mul_ulp (x := x) (by rw [hAbs]; exact zpow_log_le hPos)
  have hUlp := ulp_pos p x
  have hBelow : k * ulp p x < 2 ^ p * ulp p x := by
    calc k * ulp p x = |x| := by rw [← hk, hAbs]
      _ < 2 ^ p * ulp p x := abs_lt_mul_ulp p x
  have hLt : k < 2 ^ p := by exact_mod_cast lt_of_mul_lt_mul_right hBelow hUlp.le
  have hKPos : 0 < k := by
    rw [hk] at hPos
    exact_mod_cast pos_of_mul_pos_left hPos hUlp.le
  have hNext : x + ulp p x = ((k + 1 : ℤ) : ℚ) * 2 ^ (Int.log 2 |x| - p + 1) := by
    rw [← ulp]
    push_cast
    linarith
  rw [hNext]
  apply representable_of_abs_le hp
  rw [abs_of_pos (by omega)]
  exact hLt

/-! ## The rounded value -/

theorem representable_roundNearest (hp : 0 < p) (x : ℚ) :
    Representable p (roundNearest p x) := by
  apply representable_of_abs_le hp
  have hScaled : |x / ulp p x| < 2 ^ p := by
    rw [abs_div, abs_of_pos (ulp_pos p x), div_lt_iff₀ (ulp_pos p x)]
    exact abs_lt_mul_ulp p x
  obtain ⟨hLow, hHigh⟩ := abs_lt.mp hScaled
  have hFloorLow : -2 ^ p ≤ ⌊x / ulp p x⌋ := Int.le_floor.mpr (by exact_mod_cast hLow.le)
  have hFloorHigh : ⌊x / ulp p x⌋ < 2 ^ p := Int.floor_lt.mpr (by exact_mod_cast hHigh)
  obtain ⟨hRoundLow, hRoundHigh⟩ := roundEven_bounds (x / ulp p x)
  rw [abs_le]
  omega

/-- The rounded value is nearest among the multiples of the last place. -/
theorem abs_roundNearest_sub_le_mul_ulp (p : ℕ) (x : ℚ) (k : ℤ) :
    |roundNearest p x - x| ≤ |k * ulp p x - x| := by
  have hUlp := ulp_pos p x
  have hScale : ∀ m : ℤ, |m * ulp p x - x| = |(m : ℚ) - x / ulp p x| * ulp p x := by
    intro m
    rw [← abs_of_pos hUlp, ← abs_mul, abs_of_pos hUlp, sub_mul, div_mul_cancel₀ x hUlp.ne']
  rw [roundNearest, hScale, hScale]
  exact mul_le_mul_of_nonneg_right (roundEven_nearest _ k) hUlp.le

/-- No representable number is nearer than the rounded value. -/
theorem abs_roundNearest_sub_le (hp : 0 < p) (x : ℚ) (hy : Representable p y) :
    |roundNearest p x - x| ≤ |y - x| := by
  rcases le_or_gt (2 ^ Int.log 2 |x|) |y| with hLarge | hSmall
  · obtain ⟨k, rfl⟩ := hy.eq_mul_ulp hLarge
    exact abs_roundNearest_sub_le_mul_ulp p x k
  · -- `y` is nearer to zero than the power of two below `x`, which is a multiple too.
    have hPower := zpow_log_eq_mul_ulp hp x
    rcases lt_trichotomy x 0 with hNeg | rfl | hPos
    · have hBelow : 2 ^ Int.log 2 |x| ≤ -x := by
        rw [← abs_of_neg hNeg]
        exact zpow_log_le (abs_pos.mpr hNeg.ne)
      refine (abs_roundNearest_sub_le_mul_ulp p x (-2 ^ (p - 1))).trans ?_
      rw [Int.cast_neg, neg_mul, ← hPower, abs_of_nonneg (by linarith)]
      exact le_trans (by linarith [(abs_lt.mp hSmall).1]) (le_abs_self _)
    · have hZero : roundNearest p 0 - 0 = 0 := by
        rw [roundNearest, zero_div, roundEven, Int.floor_zero]
        norm_num
      rw [hZero, abs_zero]
      exact abs_nonneg _
    · have hBelow : 2 ^ Int.log 2 |x| ≤ x := by
        rw [abs_of_pos hPos]
        exact zpow_log_le hPos
      refine (abs_roundNearest_sub_le_mul_ulp p x (2 ^ (p - 1))).trans ?_
      rw [← hPower, abs_of_nonpos (by linarith)]
      exact le_trans (by linarith [(abs_lt.mp hSmall).2]) (neg_le_abs _)

theorem roundNearest_eq_self (hp : 0 < p) (hx : Representable p x) : roundNearest p x = x := by
  have hZero := abs_roundNearest_sub_le hp x hx
  rw [sub_self, abs_zero] at hZero
  exact sub_eq_zero.mp (abs_nonpos_iff.mp hZero)

/-- Rounding does not go above a representable number. -/
theorem roundNearest_le (hp : 0 < p) (hy : Representable p y) (hLe : x ≤ y) :
    roundNearest p x ≤ y := by
  have hNear := abs_roundNearest_sub_le hp x hy
  rw [abs_of_nonneg (sub_nonneg.mpr hLe)] at hNear
  linarith [le_abs_self (roundNearest p x - x)]

/-- Rounding does not go below a representable number. -/
theorem le_roundNearest (hp : 0 < p) (hy : Representable p y) (hLe : y ≤ x) :
    y ≤ roundNearest p x := by
  have hNear := abs_roundNearest_sub_le hp x hy
  rw [abs_of_nonpos (sub_nonpos.mpr hLe)] at hNear
  linarith [neg_le_abs (roundNearest p x - x)]

theorem lt_of_lt_roundNearest (hp : 0 < p) (hy : Representable p y)
    (hLt : y < roundNearest p x) : y < x := by
  by_contra hLe
  exact hLt.not_ge (roundNearest_le hp hy (not_lt.mp hLe))

theorem roundNearest_nonneg (hp : 0 < p) (hx : 0 ≤ x) : 0 ≤ roundNearest p x :=
  le_roundNearest hp representable_zero hx

theorem roundNearest_pos (hp : 0 < p) (hx : 0 < x) : 0 < roundNearest p x :=
  (zpow_pos two_pos _).trans_le (le_roundNearest hp (representable_zpow hp _) (zpow_log_le hx))

/-- Halving after rounding is rounding the half. -/
theorem roundNearest_half (hp : 0 < p) (x : ℚ) :
    roundNearest p (roundNearest p x / 2) = roundNearest p x / 2 :=
  roundNearest_eq_self hp (representable_roundNearest hp x).half

/-! ## Midpoints -/

/-- The midpoint of `x` and `y` as it is computed: a rounded sum, halved and rounded. -/
def roundedMidpoint (p : ℕ) (x y : ℚ) : ℚ := roundNearest p (roundNearest p (x + y) / 2)

theorem representable_roundedMidpoint (hp : 0 < p) (x y : ℚ) :
    Representable p (roundedMidpoint p x y) :=
  representable_roundNearest hp _

/-- A rounded midpoint stays between its ends. -/
theorem roundedMidpoint_mem (hp : 0 < p) (hx : Representable p x) (hy : Representable p y)
    (hLe : x ≤ y) : x ≤ roundedMidpoint p x y ∧ roundedMidpoint p x y ≤ y := by
  rw [roundedMidpoint, roundNearest_half hp]
  constructor
  · linarith [le_roundNearest hp hx.double (x := x + y) (by linarith)]
  · linarith [roundNearest_le hp hy.double (x := x + y) (by linarith)]

/-- The rounded midpoint of two numbers that are not neighbours is neither of them. -/
theorem roundedMidpoint_strict (hp : 0 < p) {z : ℚ} (hz : Representable p z) (hxz : x < z)
    (hzy : z < y) : x < roundedMidpoint p x y ∧ roundedMidpoint p x y < y := by
  have hNear : |roundNearest p (x + y) - (x + y)| < y - x := by
    calc |roundNearest p (x + y) - (x + y)| ≤ |2 * z - (x + y)| :=
          abs_roundNearest_sub_le hp _ hz.double
      _ < y - x := abs_lt.mpr ⟨by linarith, by linarith⟩
  obtain ⟨hLow, hHigh⟩ := abs_lt.mp hNear
  rw [roundedMidpoint, roundNearest_half hp]
  constructor <;> linarith

end

end DebugCode.Lib
