import DebugCode.Lib.Loop
import DebugCode.Lib.Rounding

/-!
# Sums that saturate

A loop that adds the same small number over and over to a number with a significand of `p` bits:
the numbers get further apart, and at some power of two the addend is less than half of what lies
between two of them. There the sum stays.

* `lt_roundNearest`, `roundNearest_eq_zpow`: when a rounded number is above `x`, and when it is a
  power of two.
* `Saturates.exists_iterate_eq`: what grows by some least amount below a bound that it keeps comes
  to the bound and stays.
* `saturates_roundNearest`: a rounded sum does, whatever way the sum is computed.
-/

namespace DebugCode.Lib

/-! ## Rounding near a representable number -/

section

variable {p : ℕ} {x y : ℚ}

/-- The significand of a positive number. -/
theorem Representable.exists_significand (hx : Representable p x) (hPos : 0 < x) :
    ∃ m : ℤ, 0 < m ∧ m < 2 ^ p ∧ x = m * ulp p x := by
  have hAbs : |x| = x := abs_of_pos hPos
  have hUlp := ulp_pos p x
  obtain ⟨m, hm⟩ := hx.eq_mul_ulp (x := x) (by rw [hAbs]; exact zpow_log_le hPos)
  have hBelow : m * ulp p x < 2 ^ p * ulp p x := by
    rw [← hm]
    exact (le_abs_self x).trans_lt (abs_lt_mul_ulp p x)
  refine ⟨m, ?_, by exact_mod_cast lt_of_mul_lt_mul_right hBelow hUlp.le, hm⟩
  rw [hm] at hPos
  exact_mod_cast pos_of_mul_pos_left hPos hUlp.le

theorem lt_roundNearest (hp : 0 < p) (hx : Representable p x) (hPos : 0 < x)
    (hHalf : ulp p x / 2 < y - x) : x < roundNearest p y := by
  have hUlp := ulp_pos p x
  have hLe : x ≤ roundNearest p y := le_roundNearest hp hx (by linarith)
  apply hLe.lt_of_ne
  intro hSame
  -- the next representable number would be nearer
  have hNear := abs_roundNearest_sub_le hp y (hx.add_ulp hp hPos)
  rw [← hSame, abs_sub_comm, abs_of_pos (by linarith), abs_sub_comm] at hNear
  rcases abs_cases (y - (x + ulp p x)) with ⟨hAbs, -⟩ | ⟨hAbs, -⟩
  · linarith
  · linarith

theorem roundNearest_eq_zpow (hp : 0 < p) {k : ℤ} (hLe : 2 ^ k ≤ y)
    (hNear : y - 2 ^ k < 2 ^ (k - p)) : roundNearest p y = 2 ^ k := by
  have hPower : Representable p (2 ^ k) := representable_zpow hp k
  have hBound : 2 ^ k ≤ roundNearest p y := le_roundNearest hp hPower hLe
  by_contra hOther
  have hAbove : 2 ^ k < roundNearest p y := hBound.lt_of_ne (Ne.symm hOther)
  have hGap : ulp p (2 ^ k) ≤ roundNearest p y - 2 ^ k :=
    hPower.ulp_le_sub (representable_roundNearest hp y) (zpow_pos two_pos k) le_rfl hAbove
  have hUlp : ulp p (2 ^ k : ℚ) = 2 * 2 ^ (k - p) := by
    rw [ulp_zpow, zpow_add_one₀ two_ne_zero, mul_comm]
  have hClose := abs_roundNearest_sub_le hp y hPower
  rw [abs_sub_comm (2 ^ k), abs_of_nonneg (sub_nonneg.mpr hLe)] at hClose
  have hFar := le_abs_self (roundNearest p y - y)
  linarith

end

/-! ## Growing to a bound -/

/-- Where `I` holds below `B`, a step grows by at least `d`, keeps `I` and does not pass `B`, where
it stays. -/
structure Saturates (f : ℚ → ℚ) (I : ℚ → Prop) (B d : ℚ) : Prop where
  pos : 0 < d
  keeps : ∀ x, I x → x < B → I (f x)
  grows : ∀ x, I x → x < B → x + d ≤ f x
  le_top : ∀ x, I x → x < B → f x ≤ B
  top : f B = B

namespace Saturates

variable {f : ℚ → ℚ} {I : ℚ → Prop} {B d x : ℚ}

theorem iterate_top (h : Saturates f I B d) (k : ℕ) : f^[k] B = B :=
  Function.iterate_fixed h.top k

/-- What one step preserves. -/
theorem step (h : Saturates f I B d) (hx : I x) (hLe : x ≤ B) :
    (I (f x) ∨ f x = B) ∧ x ≤ f x ∧ f x ≤ B := by
  rcases hLe.lt_or_eq with hLt | rfl
  · have hGrows := h.grows x hx hLt
    have hPos := h.pos
    exact ⟨Or.inl (h.keeps x hx hLt), by linarith, h.le_top x hx hLt⟩
  · exact ⟨Or.inr h.top, h.top.ge, h.top.le⟩

theorem iterate_mem (h : Saturates f I B d) (hx : I x) (hLe : x ≤ B) (k : ℕ) :
    (I (f^[k] x) ∨ f^[k] x = B) ∧ x ≤ f^[k] x ∧ f^[k] x ≤ B := by
  induction k with
  | zero => exact ⟨Or.inl hx, le_rfl, hLe⟩
  | succ k ih =>
    rw [Function.iterate_succ_apply']
    obtain ⟨hIn | hTop, hBelow, hAbove⟩ := ih
    · obtain ⟨hNext, hGrown, hBound⟩ := h.step hIn hAbove
      exact ⟨hNext, hBelow.trans hGrown, hBound⟩
    · rw [hTop, h.top]
      exact ⟨Or.inr rfl, hLe, le_rfl⟩

/-- The induction is on the number of steps of size `d` left. -/
theorem exists_iterate_eq (h : Saturates f I B d) (hx : I x) (hLe : x ≤ B) :
    ∃ n, ∀ k, n ≤ k → f^[k] x = B := by
  have hCount : ∀ m : ℕ, ∀ x, I x → x ≤ B → B - x ≤ m * d → ∃ n, f^[n] x = B := by
    intro m
    induction m with
    | zero =>
      intro x _ hLe hLeft
      rw [Nat.cast_zero, zero_mul] at hLeft
      exact ⟨0, le_antisymm hLe (sub_nonpos.mp hLeft)⟩
    | succ m ih =>
      intro x hx hLe hLeft
      rcases hLe.lt_or_eq with hLt | hTop
      · have hGrows := h.grows x hx hLt
        push_cast at hLeft
        obtain ⟨n, hn⟩ := ih (f x) (h.keeps x hx hLt) (h.le_top x hx hLt) (by linarith)
        exact ⟨n + 1, hn⟩
      · exact ⟨0, hTop⟩
  obtain ⟨m, hm⟩ := exists_nat_gt ((B - x) / d)
  obtain ⟨n, hn⟩ := hCount m x hx hLe ((div_lt_iff₀ h.pos).mp hm).le
  refine ⟨n, fun k hLater => ?_⟩
  obtain ⟨j, rfl⟩ := Nat.exists_eq_add_of_le' hLater
  rw [Function.iterate_add_apply, hn, h.iterate_top]

end Saturates

/-! ## Rounded sums -/

/-- The numbers that a rounded sum goes through, from `x` on. -/
def SumFrom (p : ℕ) (x y : ℚ) : Prop := Representable p y ∧ x ≤ y

/-- `add` computes a sum that is more than half a place above its operand, and less than half a
place of `2 ^ k` above `2 ^ k`. -/
theorem saturates_roundNearest {p : ℕ} (hp : 0 < p) {k : ℤ} {x : ℚ} (hPos : 0 < x)
    {add : ℚ → ℚ}
    (hAbove : ∀ y, SumFrom p x y → y < 2 ^ k → ulp p y / 2 < add y - y)
    (hBelow : ∀ y, Representable p y → y ≤ 2 ^ k → add y - 2 ^ k < 2 ^ (k - p))
    (hTop : 2 ^ k ≤ add (2 ^ k)) :
    Saturates (fun y => roundNearest p (add y)) (SumFrom p x) (2 ^ k) (ulp p x) where
  pos := ulp_pos p x
  keeps y hy hLt := by
    have hYPos : 0 < y := hPos.trans_le hy.2
    have hGrown := lt_roundNearest hp hy.1 hYPos (hAbove y hy hLt)
    exact ⟨representable_roundNearest hp _, hy.2.trans hGrown.le⟩
  grows y hy hLt := by
    have hYPos : 0 < y := hPos.trans_le hy.2
    have hGrown := lt_roundNearest hp hy.1 hYPos (hAbove y hy hLt)
    have hGap := hy.1.ulp_le_sub (representable_roundNearest hp (add y)) hPos hy.2 hGrown
    linarith
  le_top y hy hLt := by
    rcases le_or_gt (add y) (2 ^ k) with hLow | hHigh
    · exact roundNearest_le hp (representable_zpow hp k) hLow
    · exact (roundNearest_eq_zpow hp hHigh.le (hBelow y hy.1 hLt.le)).le
  top := roundNearest_eq_zpow hp hTop (hBelow _ (representable_zpow hp k) le_rfl)

section

variable {p : ℕ} (hp : 0 < p) {k : ℤ} {x c : ℚ} (hPos : 0 < x)

include hp hPos

/-- The sum with a constant, rounded once. -/
theorem saturates_add (hLow : 2 ^ (k - p) / 2 < c) (hHigh : c < 2 ^ (k - p)) :
    Saturates (fun y => roundNearest p (y + c)) (SumFrom p x) (2 ^ k) (ulp p x) := by
  have hC : 0 < c := (half_pos (zpow_pos two_pos (k - p))).trans hLow
  apply saturates_roundNearest hp hPos
  · intro y hy hLt
    have hUlp := ulp_le_of_lt_zpow (p := p) (hPos.trans_le hy.2) hLt
    linarith
  · intro y _ hTop
    linarith
  · linarith

/-- The sum with a constant, rounded to `q` bits first and then to `p`. -/
theorem saturates_add_twice {q : ℕ} (hq : p + 7 ≤ q) (hLow : 3 / 4 * 2 ^ (k - p) ≤ c)
    (hHigh : c ≤ 63 / 64 * 2 ^ (k - p)) :
    Saturates (fun y => roundNearest p (roundNearest q (y + c))) (SumFrom p x) (2 ^ k)
      (ulp p x) := by
  have hPlace : (0 : ℚ) < 2 ^ (k - p) := zpow_pos two_pos (k - p)
  have hPow : (2 : ℤ) ^ (p + 7) ≤ 2 ^ q := pow_le_pow_right₀ one_le_two hq
  have hOne : (1 : ℤ) ≤ 2 ^ p := one_le_pow₀ one_le_two
  have hBits : (2 : ℤ) ^ (p + 7) = 128 * 2 ^ p := by rw [pow_add, mul_comm]; norm_num
  apply saturates_roundNearest hp hPos
  · intro y hy hLt
    have hYPos : 0 < y := hPos.trans_le hy.2
    have hUlp := ulp_le_of_lt_zpow (p := p) hYPos hLt
    have hUlpPos := ulp_pos p y
    have hQuarter : Representable q (y + 3 / 4 * ulp p y) := by
      obtain ⟨m, hmPos, hmLt, hm⟩ := hy.1.exists_significand hYPos
      have hSum : y + 3 / 4 * ulp p y =
          ((4 * m + 3 : ℤ) : ℚ) * 2 ^ (Int.log 2 |y| - p + 1 - 2) := by
        rw [zpow_sub₀ two_ne_zero, ← ulp]
        push_cast
        linarith
      rw [hSum]
      apply representable_of_abs_le (by omega)
      rw [abs_of_pos (by omega)]
      omega
    have hGrown : y + 3 / 4 * ulp p y ≤ roundNearest q (y + c) :=
      le_roundNearest (by omega) hQuarter (by linarith)
    linarith
  · intro y _ hTop
    have hRoom : Representable q (2 ^ k + 63 / 64 * 2 ^ (k - p)) := by
      have hSum : (2 : ℚ) ^ k + 63 / 64 * 2 ^ (k - p) =
          ((64 * 2 ^ p + 63 : ℤ) : ℚ) * 2 ^ (k - p - 6) := by
        have hK : (2 : ℚ) ^ k = 2 ^ (k - p) * 2 ^ p := by
          rw [← zpow_natCast, ← zpow_add₀ two_ne_zero, sub_add_cancel]
        rw [zpow_sub₀ two_ne_zero (k - p) 6, hK]
        push_cast
        ring
      rw [hSum]
      apply representable_of_abs_le (by omega)
      rw [abs_of_pos (by omega)]
      omega
    have hBound : roundNearest q (y + c) ≤ 2 ^ k + 63 / 64 * 2 ^ (k - p) :=
      roundNearest_le (by omega) hRoom (by linarith)
    linarith
  · exact le_roundNearest (by omega) (representable_zpow (by omega) k) (by linarith)

end

end DebugCode.Lib
