import DebugCode.Lib.ScanHex
import Mathlib.Algebra.Ring.Nat
import Mathlib.Data.List.Induction
import Mathlib.Tactic.Ring

/-!
# Hexadecimal numbers of a fixed width

What `%8.8x` prints of 32 bits, and `%08x`, `%4.4x` and so on of their own widths: the low digits
of a number, the highest one first. Numbers printed next to each other are one longer number.

* `hexDigitsValue_hexText`: the digits give the number back.
* `hexDigitsValue_append`: digits next to each other.
-/

namespace DebugCode.Lib

/-- The low `n` hexadecimal digits of a number. -/
def hexText : ℕ → ℕ → List UInt8
  | 0, _ => []
  | n + 1, v => hexText n (v / 16) ++ [hexDigit (v % 16)]

@[simp]
theorem hexText_length (n v : ℕ) : (hexText n v).length = n := by
  induction n generalizing v with
  | zero => rfl
  | succ n ih => rw [hexText, List.length_append, ih, List.length_singleton]

theorem hexText_isxdigit {n v : ℕ} : ∀ c ∈ hexText n v, isxdigit c = true := by
  induction n generalizing v with
  | zero =>
    intro c hc
    cases hc
  | succ n ih =>
    intro c hc
    rw [hexText, List.mem_append, List.mem_singleton] at hc
    rcases hc with hc | rfl
    · exact ih c hc
    · exact isxdigit_hexDigit (Nat.mod_lt _ (by decide))

theorem hexDigitsValue_append (ds es : List UInt8) :
    hexDigitsValue (ds ++ es) = hexDigitsValue ds * 16 ^ es.length + hexDigitsValue es := by
  induction es using List.reverseRecOn with
  | nil => simp [hexDigitsValue]
  | append_singleton es e ih =>
    have hSnoc : ∀ fs : List UInt8,
        hexDigitsValue (fs ++ [e]) = 16 * hexDigitsValue fs + hexValue e := by
      intro fs
      rw [hexDigitsValue, List.foldl_append]
      rfl
    rw [← List.append_assoc, hSnoc, hSnoc, ih, List.length_append, List.length_singleton, pow_succ]
    ring

theorem hexDigitsValue_hexText (n v : ℕ) : hexDigitsValue (hexText n v) = v % 16 ^ n := by
  induction n generalizing v with
  | zero => exact (Nat.mod_one v).symm
  | succ n ih =>
    have hDigit : hexDigitsValue [hexDigit (v % 16)] = v % 16 := by
      show 16 * 0 + hexValue (hexDigit (v % 16)) = v % 16
      rw [hexValue_hexDigit (Nat.mod_lt _ (by decide)), Nat.mul_zero, Nat.zero_add]
    rw [hexText, hexDigitsValue_append, ih, hDigit, List.length_singleton, pow_one, pow_succ',
      Nat.mod_mul]
    ring

end DebugCode.Lib
