import DebugCode.Lib.Loop
import Mathlib.Algebra.Ring.Nat
import Mathlib.Order.Bounds.Basic

/-!
# The clock of the latency test

`rdtsc` leaves the two halves of the time stamp counter in two registers. `rdtsc` of
`hz-test.c` puts them together; `rd_clock` of `latency-test.c` takes one of the two registers
for the whole counter, on x86-64.

* `rdtsc_eq`: `hz-test.c` reads the counter.
* `rdClock_eq_iff`: `latency-test.c` reads it when it fits in the register that is taken.
* `exitsAt_iff`: the loop of `test_cpu_usage` ends at the first reading that is not below the
  deadline.
* `clockIsTsc_iff`: the clock is the counter, and the loop ends in time, when every value of the
  counter fits in the register that is taken.
* `not_exitsAt_rax`: from the last billion values before a carry the loop does not end.
-/

namespace DebugCode.LatencyTest

open Lib

/-- The registers that `rdtsc` writes. -/
inductive Reg
  | rax | rdx
  deriving DecidableEq

/-- What `rdtsc` leaves in a register: a half of the counter, with zeros above. -/
def rdtscReg (tsc : BitVec 64) : Reg → BitVec 64
  | .rax => (tsc.setWidth 32).setWidth 64
  | .rdx => ((tsc >>> 32).setWidth 32).setWidth 64

/-- `rdtsc` of `hz-test.c`, where a `long` has 64 bits. -/
def rdtsc (tsc : BitVec 64) : BitVec 64 :=
  let lo : BitVec 32 := (rdtscReg tsc .rax).setWidth 32
  let hi : BitVec 32 := (rdtscReg tsc .rdx).setWidth 32
  hi.setWidth 64 <<< 32 ||| lo.setWidth 64

/-- `rd_clock` of `latency-test.c` for x86-64, with the register taken for the operand. -/
def rdClock (taken : Reg) (tsc : BitVec 64) : BitVec 64 := rdtscReg tsc taken

theorem toNat_rdtscReg_rax (tsc : BitVec 64) :
    (rdtscReg tsc .rax).toNat = tsc.toNat % 2 ^ 32 := by
  rw [rdtscReg, BitVec.toNat_setWidth, BitVec.toNat_setWidth]
  omega

theorem toNat_rdtscReg_rdx (tsc : BitVec 64) :
    (rdtscReg tsc .rdx).toNat = tsc.toNat / 2 ^ 32 := by
  have hLt := tsc.isLt
  rw [rdtscReg, BitVec.toNat_setWidth, BitVec.toNat_setWidth, BitVec.toNat_ushiftRight,
    Nat.shiftRight_eq_div_pow]
  omega

/-- Both halves together are the counter. -/
theorem rdtsc_eq (tsc : BitVec 64) : rdtsc tsc = tsc := by
  ext i hi
  simp only [rdtsc, rdtscReg, BitVec.getElem_or, BitVec.getElem_shiftLeft, BitVec.getElem_setWidth,
    BitVec.getLsbD_setWidth, BitVec.getLsbD_ushiftRight]
  by_cases hLow : i < 32
  · simp only [hLow, hi, decide_true, Bool.not_true, Bool.false_and, Bool.false_or, Bool.true_and,
      BitVec.getLsbD_eq_getElem hi]
  · have hHigh : i - 32 < 32 := by omega
    have hReg : i - 32 < 64 := by omega
    have hBit : 32 + (i - 32) = i := by omega
    simp only [hLow, hHigh, hReg, hBit, decide_true, decide_false, Bool.not_false, Bool.true_and,
      Bool.false_and, Bool.or_false, BitVec.getLsbD_eq_getElem hi]

/-- The counter fits in the register that is taken for all of it. -/
def Fits : Reg → BitVec 64 → Prop
  | .rax, tsc => tsc.toNat < 2 ^ 32
  | .rdx, tsc => tsc.toNat = 0

theorem rdClock_eq_iff (taken : Reg) (tsc : BitVec 64) :
    rdClock taken tsc = tsc ↔ Fits taken tsc := by
  rw [← BitVec.toNat_inj, rdClock]
  cases taken with
  | rax =>
    rw [toNat_rdtscReg_rax, Fits]
    omega
  | rdx =>
    rw [toNat_rdtscReg_rdx, Fits]
    omega

/-! ## test_cpu_usage -/

/-- The state of the loop: the number of the next reading of the clock, and `count`. -/
structure Usage where
  reading : ℕ
  count : BitVec 64

section

variable (taken : ℕ → Reg) (tsc : ℕ → BitVec 64)

/-- What `rd_clock` returns at a reading. The counter has the value `tsc n` there, and the
compiler may have taken another register at each call. -/
def clock (n : ℕ) : BitVec 64 := rdClock (taken n) (tsc n)

/-- `t2`, from the first reading -/
def deadline : BitVec 64 := clock taken tsc 0 + 1000000000

theorem toNat_deadline :
    (deadline taken tsc).toNat = ((clock taken tsc 0).toNat + 10 ^ 9) % 2 ^ 64 := by
  have hBillion : (1000000000 : BitVec 64).toNat = 10 ^ 9 := by
    decide
  rw [deadline, BitVec.toNat_add, hBillion]

/-- A sample of `test_cpu_usage`: `while (rd_clock() < t2) count++;` -/
def testCpuUsage (fuel : ℕ) : Option Usage :=
  whileLoop (fun s => clock taken tsc s.reading < deadline taken tsc)
    (fun s => ⟨s.reading + 1, s.count + 1⟩) fuel ⟨1, 0⟩

/-- The loop ends at the reading `n`. -/
def ExitsAt (n : ℕ) : Prop :=
  ∃ fuel s, testCpuUsage taken tsc fuel = some s ∧ s.reading = n

end

variable {taken : ℕ → Reg} {tsc : ℕ → BitVec 64} {n : ℕ}

/-- After `k` rounds the loop is at the reading behind the `k` ones of these rounds. -/
theorem reading_iterate (k : ℕ) :
    ((fun s : Usage => (⟨s.reading + 1, s.count + 1⟩ : Usage))^[k] ⟨1, 0⟩).reading = k + 1 := by
  induction k with
  | zero => rfl
  | succ k ih => rw [Function.iterate_succ_apply', ih]

/-- The loop ends at the first reading that has reached the deadline. -/
theorem exitsAt_iff :
    ExitsAt taken tsc n ↔
      IsLeast {k | 1 ≤ k ∧ deadline taken tsc ≤ clock taken tsc k} n := by
  rw [ExitsAt, exists_comm]
  simp only [testCpuUsage, exists_and_right, exists_whileLoop_iff]
  constructor
  · rintro ⟨s, ⟨k, rfl, hBefore, hLast⟩, rfl⟩
    rw [reading_iterate] at hLast ⊢
    refine ⟨⟨Nat.le_add_left 1 k, BitVec.not_lt.mp hLast⟩, fun m hm => ?_⟩
    obtain ⟨hFirst, hReached⟩ := hm
    by_contra hEarlier
    have hRound := hBefore (m - 1) (by omega)
    rw [reading_iterate, Nat.sub_add_cancel hFirst] at hRound
    exact BitVec.not_lt.mpr hReached hRound
  · rintro ⟨⟨hFirst, hReached⟩, hLeast⟩
    obtain ⟨k, rfl⟩ := Nat.exists_eq_add_of_le' hFirst
    refine ⟨_, ⟨k, rfl, fun m hEarlier => ?_, ?_⟩, reading_iterate k⟩
    · rw [reading_iterate]
      by_contra hNotBelow
      have hLe := hLeast ⟨Nat.le_add_left 1 m, BitVec.not_lt.mp hNotBelow⟩
      omega
    · rw [reading_iterate]
      exact BitVec.not_lt.mpr hReached

/-- On x86-64 the clock of the latency test is the counter. -/
structure ClockIsTsc (taken : ℕ → Reg) (tsc : ℕ → BitVec 64) : Prop where
  /-- the same as `hz-test.c` reads -/
  same : ∀ n, clock taken tsc n = rdtsc (tsc n)
  /-- the loop ends as soon as the counter has advanced by a billion -/
  in_time : (∀ n, (tsc n).toNat < 2 ^ 64 - 10 ^ 9) → ∀ n, ExitsAt taken tsc n ↔
    IsLeast {k | 1 ≤ k ∧ (tsc 0).toNat + 10 ^ 9 ≤ (tsc k).toNat} n

/-- The clock is the counter when all its values fit in the registers that are taken. -/
theorem clockIsTsc_iff (taken : ℕ → Reg) (tsc : ℕ → BitVec 64) :
    ClockIsTsc taken tsc ↔ ∀ n, Fits (taken n) (tsc n) := by
  constructor
  · intro hClock n
    rw [← rdClock_eq_iff, ← clock, hClock.same, rdtsc_eq]
  · intro hFits
    have hSame : ∀ n, clock taken tsc n = tsc n := fun n => (rdClock_eq_iff _ _).mpr (hFits n)
    refine ⟨fun n => (hSame n).trans (rdtsc_eq _).symm, fun hBelow n => ?_⟩
    have hDeadline : (deadline taken tsc).toNat = (tsc 0).toNat + 10 ^ 9 := by
      have hStart := hBelow 0
      rw [toNat_deadline, hSame]
      exact Nat.mod_eq_of_lt (by omega)
    rw [exitsAt_iff]
    simp only [BitVec.le_def, hDeadline, hSame]

/-- A deadline behind a carry into the upper half is never seen in the lower one. -/
theorem not_exitsAt_rax (hTaken : ∀ n, taken n = .rax)
    (hCarry : 2 ^ 32 ≤ (tsc 0).toNat % 2 ^ 32 + 10 ^ 9) : ¬ ExitsAt taken tsc n := by
  rw [exitsAt_iff]
  rintro ⟨⟨-, hReached⟩, -⟩
  have hClock : ∀ n, (clock taken tsc n).toNat = (tsc n).toNat % 2 ^ 32 := fun n => by
    rw [clock, rdClock, hTaken, toNat_rdtscReg_rax]
  rw [BitVec.le_def, toNat_deadline, hClock, hClock] at hReached
  omega

/-- A counter that carries into its upper half between the first two readings. -/
def carry : ℕ → BitVec 64
  | 0 => 0xffffffff
  | _ + 1 => 0xffffffff + 1000000000

theorem toNat_carry_succ (n : ℕ) : (carry (n + 1)).toNat = 2 ^ 32 - 1 + 10 ^ 9 := by
  rw [carry]
  decide

theorem monotone_carry : Monotone fun n => (carry n).toNat := by
  refine monotone_nat_of_le_succ fun n => ?_
  cases n with
  | zero => decide
  | succ n => exact le_rfl

/-- No choice of the registers lets the loop see this carry. -/
theorem not_exitsAt_carry (taken : ℕ → Reg) (n : ℕ) : ¬ ExitsAt taken carry n := by
  rw [exitsAt_iff]
  rintro ⟨⟨hFirst, hReached⟩, -⟩
  obtain ⟨k, rfl⟩ := Nat.exists_eq_add_of_le' hFirst
  have hLate : (clock taken carry (k + 1)).toNat < 10 ^ 9 := by
    rw [clock, rdClock]
    cases taken (k + 1) with
    | rax =>
      rw [toNat_rdtscReg_rax, toNat_carry_succ]
      decide
    | rdx =>
      rw [toNat_rdtscReg_rdx, toNat_carry_succ]
      decide
  have hStart : (clock taken carry 0).toNat < 2 ^ 32 := by
    rw [clock, rdClock]
    cases taken 0 with
    | rax => decide
    | rdx => decide
  rw [BitVec.le_def, toNat_deadline] at hReached
  omega

/-- No choice of the registers makes the clock the counter. -/
theorem not_clockIsTsc : ¬ ∃ taken : ℕ → Reg, ∀ tsc : ℕ → BitVec 64,
    (Monotone fun n => (tsc n).toNat) → ClockIsTsc taken tsc := by
  rintro ⟨taken, hClock⟩
  have hBelow : ∀ n, (carry n).toNat < 2 ^ 64 - 10 ^ 9 := fun n => by
    cases n with
    | zero => decide
    | succ n =>
      rw [toNat_carry_succ]
      decide
  have hLeast : IsLeast {k | 1 ≤ k ∧ (carry 0).toNat + 10 ^ 9 ≤ (carry k).toNat} 1 :=
    ⟨⟨le_rfl, le_rfl⟩, fun k hReached => hReached.1⟩
  exact not_exitsAt_carry taken 1 (((hClock carry monotone_carry).in_time hBelow 1).mpr hLeast)

end DebugCode.LatencyTest
