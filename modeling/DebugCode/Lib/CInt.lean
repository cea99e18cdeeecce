import Mathlib.Algebra.Ring.Int.Defs
import Mathlib.Algebra.Ring.Nat
import Mathlib.Tactic.Common

/-!
# The integers of C

The value that an `int` of 32 bits or a `long` of 64 bits has after a conversion or an
operation, which wraps.

* `toInt_le`, `toInt_eq_self_iff`: a conversion to `int` keeps exactly the numbers that fit.
* `toInt_eq_iff`: two numbers have the same conversion when they are congruent.
* `toInt_toInt_add`, `toInt_add_toInt`, `toInt_toInt_sub_toInt`: wrapped operands give the
  wrapped result.
* `toLong_of_lt`: so does one to `long`.
* `or_eq_add_iff`: `|` adds when no bit is set on both sides.
-/

namespace DebugCode.Lib

/-- The value of an `int` after a conversion. -/
def toInt (x : Int) : Int := x.bmod (2 ^ 32)

/-- The value of a `long` after an operation. -/
def toLong (x : Int) : Int := x.bmod (2 ^ 64)

theorem toInt_lt (x : Int) : toInt x < 2 ^ 31 := Int.bmod_lt (by decide)

theorem toLong_lt (x : Int) : toLong x < 2 ^ 63 := Int.bmod_lt (by decide)

theorem toInt_le {x : Int} (hZero : 0 ≤ x) : toInt x ≤ x := by
  rw [toInt, Int.bmod_def]
  split <;> omega

theorem toInt_eq_self_iff {x : Int} (hZero : 0 ≤ x) : toInt x = x ↔ x < 2 ^ 31 := by
  rw [toInt, Int.bmod_def]
  split <;> omega

theorem toInt_of_nonneg {x : Int} (hZero : 0 ≤ x) (hLt : x < 2 ^ 31) : toInt x = x :=
  (toInt_eq_self_iff hZero).mpr hLt

theorem toInt_eq_iff {x y : Int} : toInt x = toInt y ↔ 2 ^ 32 ∣ x - y := by
  rw [toInt, toInt, Int.bmod_def, Int.bmod_def]
  split
  · split <;> omega
  · split <;> omega

theorem toInt_toInt_add (x y : Int) : toInt (toInt x + y) = toInt (x + y) := Int.bmod_add_bmod

theorem toInt_add_toInt (x y : Int) : toInt (x + toInt y) = toInt (x + y) := Int.add_bmod_bmod

theorem toInt_toInt_sub_toInt (x y : Int) : toInt (toInt x - toInt y) = toInt (x - y) :=
  (Int.sub_bmod x y (2 ^ 32)).symm

theorem toLong_of_lt {x : Int} (hZero : 0 ≤ x) (hLt : x < 2 ^ 63) : toLong x = x := by
  rw [toLong, Int.bmod_def]
  split <;> omega

/-! ## Bits -/

/-- What `|` loses of a sum are the bits that both sides have. -/
theorem or_add_and (a b : ℕ) : (a ||| b) + (a &&& b) = a + b := by
  induction a using Nat.strongRecOn generalizing b with
  | ind a ih =>
    rcases Nat.eq_zero_or_pos a with rfl | hPos
    · rw [Nat.zero_or, Nat.zero_and, Nat.zero_add, Nat.add_zero]
    · -- The halves by induction, and the lowest bits one by one.
      have hHalf := ih (a / 2) (by omega) (b / 2)
      rw [← Nat.or_div_two, ← Nat.and_div_two] at hHalf
      have hOr := Nat.or_mod_two_eq_one (a := a) (b := b)
      have hAnd := Nat.and_mod_two_eq_one (a := a) (b := b)
      omega

theorem or_eq_add_iff {a b : ℕ} : a ||| b = a + b ↔ a &&& b = 0 := by
  rw [← or_add_and a b]
  omega

end DebugCode.Lib
