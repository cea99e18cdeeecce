import DebugCode.Lib.Loop
import Mathlib.Tactic.Common

/-!
# Retries of rdrand

The instruction `rdrand` may have no number: it then clears the carry flag. `rdrand-benchmark`
repeats it until the flag is set. `rdrand.c` makes a result of its own from the flag: it puts 1 in
`%edx`, moves the number there when the flag is clear, and takes 0 in `%edx` for a failure. So it
relies on what a failing instruction leaves in its register. Every round of a loop runs the
instruction, as the source has it: that a compiler may take the `asm` out of the loop is left out.

* `rdrand16Asm_eq`, `rdrand32Asm_eq`, `rdrand64Asm_eq`: the three functions have one result.
* `rdrand_takeSame_iff`: both loops take the same attempt exactly when every failing attempt before
  the first success leaves zeros in the low half of the register.
-/

namespace DebugCode.Rdrand

open Lib

/-- What `rdrand` leaves in the carry flag and in a register of `w` bits. -/
structure Attempt (w : ℕ) where
  carry : Bool
  value : BitVec w

/-! ## The functions of rdrand.c -/

/-- A write to the low 16 bits of a register keeps the others. -/
def put16 (old : BitVec 64) (v : BitVec 16) : BitVec 64 := (old >>> 16) <<< 16 ||| v.setWidth 64

/-- A write to the low 32 bits clears the others. -/
def put32 (v : BitVec 32) : BitVec 64 := v.setWidth 64

/-- `rdrand %ax; mov $1,%edx; cmovae %ax,%dx; mov %edx,ret; mov %ax,tmp` -/
def rdrand16Asm (rax : BitVec 64) (attempt : Attempt 16) : BitVec 16 × BitVec 32 :=
  let rax := put16 rax attempt.value
  let rdx := put32 1
  let rdx := if attempt.carry then rdx else put16 rdx (rax.setWidth 16)
  (rax.setWidth 16, rdx.setWidth 32)

/-- The same with `%eax` and `%edx`. -/
def rdrand32Asm (attempt : Attempt 32) : BitVec 32 × BitVec 32 :=
  let rax := put32 attempt.value
  let rdx := put32 1
  let rdx := put32 (if attempt.carry then rdx.setWidth 32 else rax.setWidth 32)
  (rax.setWidth 32, rdx.setWidth 32)

/-- The same with `%rax` and `%rdx`; the result is still in `%edx`. -/
def rdrand64Asm (attempt : Attempt 64) : BitVec 64 × BitVec 32 :=
  let rax := attempt.value
  let rdx := put32 1
  let rdx := if attempt.carry then rdx else rax
  (rax, rdx.setWidth 32)

/-- `while (__rdrand(val) == 0);`: the number of the attempt that `*val` is from. -/
def retry {w : ℕ} (asm : Attempt w → BitVec w × BitVec 32) (attempts : ℕ → Attempt w)
    (fuel : ℕ) : Option ℕ :=
  whileLoop (fun k => (asm (attempts k)).2 = 0) (· + 1) fuel 0

def rdrand16 (rax : BitVec 64) : (ℕ → Attempt 16) → ℕ → Option ℕ := retry (rdrand16Asm rax)

def rdrand32 : (ℕ → Attempt 32) → ℕ → Option ℕ := retry rdrand32Asm

def rdrand64 : (ℕ → Attempt 64) → ℕ → Option ℕ := retry rdrand64Asm

/-- `1: rdrand %0; jnc 1b` of `rdrand-benchmark`. -/
def untilCarry {w : ℕ} (attempts : ℕ → Attempt w) (fuel : ℕ) : Option ℕ :=
  whileLoop (fun k => (attempts k).carry = false) (· + 1) fuel 0

/-! ## One attempt -/

/-- The result of the three functions. -/
def result {w : ℕ} (attempt : Attempt w) : BitVec 32 :=
  if attempt.carry then 1 else attempt.value.setWidth 32

theorem setWidth_put16 (old : BitVec 64) (v : BitVec 16) : (put16 old v).setWidth 16 = v := by
  apply BitVec.eq_of_getLsbD_eq
  intro i hi
  simp [put16, hi]

theorem rdrand16Asm_eq (rax : BitVec 64) (attempt : Attempt 16) :
    rdrand16Asm rax attempt = (attempt.value, result attempt) := by
  have hOne : put16 (put32 1) attempt.value = attempt.value.setWidth 64 := by
    have hHigh : (put32 1 >>> 16) <<< 16 = 0#64 := by decide
    rw [put16, hHigh, BitVec.zero_or]
  rw [rdrand16Asm, result, setWidth_put16, hOne]
  cases attempt.carry with
  | false =>
    rw [if_neg Bool.false_ne_true, if_neg Bool.false_ne_true, BitVec.setWidth_setWidth_of_le _
      (by decide)]
  | true => rfl

theorem rdrand32Asm_eq (attempt : Attempt 32) :
    rdrand32Asm attempt = (attempt.value, result attempt) := by
  have hBack : ∀ v : BitVec 32, (put32 v).setWidth 32 = v := by
    intro v
    rw [put32, BitVec.setWidth_setWidth_of_le _ (by decide), BitVec.setWidth_eq]
  rw [rdrand32Asm, result]
  simp only [hBack, BitVec.setWidth_eq]

theorem rdrand64Asm_eq (attempt : Attempt 64) :
    rdrand64Asm attempt = (attempt.value, result attempt) := by
  rw [rdrand64Asm, result]
  cases attempt.carry with
  | false => rfl
  | true => rfl

/-! ## The loops -/

section

variable {w : ℕ} (attempts : ℕ → Attempt w)

theorem iterate_succ_zero (k : ℕ) : (· + 1)^[k] 0 = k := by
  induction k with
  | zero => rfl
  | succ k ih => rw [Function.iterate_succ_apply', ih]

/-- A loop that counts takes the first number it is not to skip. -/
theorem exists_count_iff (skip : ℕ → Prop) [DecidablePred skip] (n : ℕ) :
    (∃ fuel, whileLoop skip (· + 1) fuel 0 = some n) ↔ ¬ skip n ∧ ∀ k < n, skip k := by
  rw [exists_whileLoop_iff]
  simp only [iterate_succ_zero]
  constructor
  · rintro ⟨m, rfl, hBefore, hLast⟩
    exact ⟨hLast, hBefore⟩
  · rintro ⟨hLast, hBefore⟩
    exact ⟨n, rfl, hBefore, hLast⟩

/-- Failing attempts, as long as there has been no success, leave zeros in the low half. -/
def ZeroOnFailure : Prop :=
  ∀ n, (∀ k ≤ n, (attempts k).carry = false) → (attempts n).value.setWidth 32 = 0#32

theorem result_eq_zero_iff (attempt : Attempt w) :
    result attempt = 0 ↔ attempt.carry = false ∧ attempt.value.setWidth 32 = 0#32 := by
  rw [result]
  cases attempt.carry with
  | false => simp
  | true => simp

/-- Two loops take the same attempt, or both go on for ever. -/
def TakeSame (loop other : (ℕ → Attempt w) → ℕ → Option ℕ) : Prop :=
  ∀ n, (∃ fuel, loop attempts fuel = some n) ↔ ∃ fuel, other attempts fuel = some n

variable {asm : Attempt w → BitVec w × BitVec 32}
  (hAsm : ∀ attempt, asm attempt = (attempt.value, result attempt))

include hAsm

theorem retry_iff (n : ℕ) :
    (∃ fuel, retry asm attempts fuel = some n) ↔
      result (attempts n) ≠ 0 ∧ ∀ k < n, result (attempts k) = 0 := by
  simp only [retry, exists_count_iff, hAsm]

theorem takeSame_iff : TakeSame attempts (retry asm) untilCarry ↔ ZeroOnFailure attempts := by
  have hUntil (n : ℕ) : (∃ fuel, untilCarry attempts fuel = some n) ↔
      (attempts n).carry = true ∧ ∀ k < n, (attempts k).carry = false := by
    simp only [untilCarry, exists_count_iff, Bool.not_eq_false]
  constructor
  · intro hSame n hFail
    -- The first failure that leaves another number is the one that `retry` would take.
    induction n using Nat.strongRecOn with
    | _ n ih =>
      have hZero : ∀ k < n, result (attempts k) = 0 := by
        intro k hk
        rw [result_eq_zero_iff]
        exact ⟨hFail k (Nat.le_of_lt hk), ih k hk fun j hj ↦
          hFail j (Nat.le_of_lt (Nat.lt_of_le_of_lt hj hk))⟩
      by_contra hValue
      have hTaken : result (attempts n) ≠ 0 := by
        rw [Ne, result_eq_zero_iff]
        exact fun h ↦ hValue h.2
      have hSuccess := (hUntil n).mp ((hSame n).mp ((retry_iff attempts hAsm n).mpr
        ⟨hTaken, hZero⟩))
      rw [hFail n n.le_refl] at hSuccess
      exact Bool.false_ne_true hSuccess.1
  · intro hZero n
    rw [retry_iff attempts hAsm, hUntil]
    have hBefore : (∀ k < n, result (attempts k) = 0) ↔
        ∀ k < n, (attempts k).carry = false := by
      constructor
      · intro h k hk
        exact ((result_eq_zero_iff _).mp (h k hk)).1
      · intro h k hk
        rw [result_eq_zero_iff]
        exact ⟨h k hk, hZero k fun j hj ↦ h j (Nat.lt_of_le_of_lt hj hk)⟩
    rw [hBefore]
    refine and_congr_left fun hFail ↦ ?_
    rw [Ne, result_eq_zero_iff]
    constructor
    · intro hTaken
      by_contra hCarry
      rw [Bool.not_eq_true] at hCarry
      refine hTaken ⟨hCarry, hZero n fun k hk ↦ ?_⟩
      rcases Nat.eq_or_lt_of_le hk with rfl | hLess
      · exact hCarry
      · exact hFail k hLess
    · intro hCarry h
      rw [hCarry] at h
      exact Bool.noConfusion h.1

end

/-- Each function of `rdrand.c` takes the attempt that the loop on the carry flag takes, or both go
on for ever, exactly when its failing attempts leave zeros. -/
theorem rdrand_takeSame_iff (rax : BitVec 64) (attempts16 : ℕ → Attempt 16)
    (attempts32 : ℕ → Attempt 32) (attempts64 : ℕ → Attempt 64) :
    (TakeSame attempts16 (rdrand16 rax) untilCarry ↔ ZeroOnFailure attempts16) ∧
    (TakeSame attempts32 rdrand32 untilCarry ↔ ZeroOnFailure attempts32) ∧
    (TakeSame attempts64 rdrand64 untilCarry ↔ ZeroOnFailure attempts64) :=
  ⟨takeSame_iff attempts16 (rdrand16Asm_eq rax), takeSame_iff attempts32 rdrand32Asm_eq,
    takeSame_iff attempts64 rdrand64Asm_eq⟩

end DebugCode.Rdrand
