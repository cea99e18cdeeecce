import Mathlib.Algebra.BigOperators.Intervals
import Mathlib.Algebra.Order.BigOperators.Group.Finset

/-!
# Polling the kernel log

`main` of kmesg reads and clears the kernel log in each polling round and appends what it has
read to a file, with as many calls of `write` as that takes, until one of them fails.

* `writeChunk_eq_iff`: a chunk is written completely exactly when the writes in front of the
  first failure take all of it.
* `logAt_eq_iff`: the file holds all chunks exactly when each was written completely.
-/

namespace DebugCode.Kmesg

/-! ## The program -/

/-- The bytes that `klogctl` reads and clears in each round, none when it returns 0 or fails; and
for each round what its calls of `write` return when they are asked for enough bytes. A call
never returns more than it is asked for. -/
structure Env where
  klogctl : Nat → List UInt8
  write : Nat → Nat → Int

/-- `while (n > 0)`, which writes the bytes from `ptr` on: those that reach the file. -/
def writeChunk (write : Nat → Int) (ptr : List UInt8) : List UInt8 :=
  if 0 < ptr.length then
    let written := min (write 0) ptr.length
    if 0 < written then
      ptr.take written.toNat ++ writeChunk (fun i => write (i + 1)) (ptr.drop written.toNat)
    else []
  else []
termination_by ptr.length
decreasing_by
  rw [List.length_drop]
  omega

/-- A polling round. -/
def round (write : Nat → Int) (chunk log : List UInt8) : List UInt8 :=
  if 0 < chunk.length then log ++ writeChunk write chunk else log

/-- The file at the start of round `i`. -/
def logAt (env : Env) (log : List UInt8) : Nat → List UInt8
  | 0 => log
  | i + 1 => round (env.write i) (env.klogctl i) (logAt env log i)

/-! ## The abstract property -/

/-- The chunks read before round `i`. -/
def chunksBefore (env : Env) (i : Nat) : List UInt8 := (List.range i).flatMap env.klogctl

/-- The writes in front of the first one that fails take all the bytes. -/
def TakesAll (write : Nat → Int) (ptr : List UInt8) : Prop :=
  ∃ m, (∀ i < m, 0 < write i) ∧ (ptr.length : Int) ≤ ∑ i ∈ Finset.range m, write i

/-! ## Writing a chunk -/

section

variable {write : Nat → Int} {ptr : List UInt8}

theorem writeChunk_nil : writeChunk write [] = [] := by
  rw [writeChunk]
  rfl

theorem writeChunk_fails (hFails : write 0 ≤ 0) : writeChunk write ptr = [] := by
  rw [writeChunk]
  split
  · exact if_neg (by omega)
  · rfl

/-- A write that takes some bytes. -/
theorem writeChunk_takes (hPtr : 0 < ptr.length) (hTakes : 0 < write 0) :
    writeChunk write ptr = ptr.take (min (write 0) ptr.length).toNat ++
      writeChunk (fun i => write (i + 1)) (ptr.drop (min (write 0) ptr.length).toNat) := by
  conv_lhs => rw [writeChunk, if_pos hPtr]
  exact if_pos (by omega)

theorem takesAll_nil : TakesAll write [] := by
  refine ⟨0, fun i hi => absurd hi (Nat.not_lt_zero i), ?_⟩
  simp

theorem not_takesAll (hPtr : 0 < ptr.length) (hFails : write 0 ≤ 0) : ¬ TakesAll write ptr := by
  rintro ⟨m, hPositive, hSum⟩
  cases m with
  | zero =>
    rw [Finset.sum_range_zero] at hSum
    omega
  | succ m =>
    have hFirst := hPositive 0 (Nat.succ_pos m)
    omega

/-- The first write leaves the rest to the others. -/
theorem takesAll_iff (hPtr : 0 < ptr.length) (hTakes : 0 < write 0) :
    TakesAll write ptr ↔
      TakesAll (fun i => write (i + 1)) (ptr.drop (min (write 0) ptr.length).toNat) := by
  have hLength : ((ptr.drop (min (write 0) ptr.length).toNat).length : Int) =
      max (ptr.length - write 0) 0 := by
    rw [List.length_drop]
    omega
  constructor
  · rintro ⟨m, hPositive, hSum⟩
    cases m with
    | zero =>
      rw [Finset.sum_range_zero] at hSum
      omega
    | succ m =>
      rw [Finset.sum_range_succ'] at hSum
      have hLater : ∀ i < m, 0 < write (i + 1) := fun i hi => hPositive (i + 1) (by omega)
      have hNonneg : 0 ≤ ∑ i ∈ Finset.range m, write (i + 1) :=
        Finset.sum_nonneg fun i hi => (hLater i (Finset.mem_range.mp hi)).le
      refine ⟨m, hLater, ?_⟩
      show _ ≤ ∑ i ∈ Finset.range m, write (i + 1)
      rw [hLength]
      omega
  · rintro ⟨m, hPositive, hSum⟩
    refine ⟨m + 1, ?_, ?_⟩
    · intro i hi
      cases i with
      | zero => exact hTakes
      | succ i => exact hPositive i (by omega)
    · have hRest : _ ≤ ∑ i ∈ Finset.range m, write (i + 1) := hSum
      rw [hLength] at hRest
      rw [Finset.sum_range_succ']
      omega

/-- What reaches the file is a prefix of the chunk. -/
theorem writeChunk_prefix_ptr (write : Nat → Int) (ptr : List UInt8) :
    writeChunk write ptr <+: ptr := by
  induction write, ptr using writeChunk.induct with
  | case1 write ptr hPtr written hTakes ih =>
    have hFirst : 0 < write 0 := by omega
    rw [writeChunk_takes hPtr hFirst]
    conv_rhs => rw [← List.take_append_drop written.toNat ptr]
    exact (List.prefix_append_right_inj _).mpr ih
  | case2 write ptr hPtr written hFails =>
    rw [writeChunk_fails (by omega)]
    exact List.nil_prefix
  | case3 write ptr hPtr =>
    obtain rfl : ptr = [] := List.length_eq_zero_iff.mp (Nat.eq_zero_of_not_pos hPtr)
    rw [writeChunk_nil]

theorem writeChunk_eq_iff (write : Nat → Int) (ptr : List UInt8) :
    writeChunk write ptr = ptr ↔ TakesAll write ptr := by
  induction write, ptr using writeChunk.induct with
  | case1 write ptr hPtr written hTakes ih =>
    have hFirst : 0 < write 0 := by omega
    rw [writeChunk_takes hPtr hFirst, takesAll_iff hPtr hFirst, ← ih]
    conv_lhs => rhs; rw [← List.take_append_drop written.toNat ptr]
    exact List.append_right_inj _
  | case2 write ptr hPtr written hFails =>
    have hFirst : write 0 ≤ 0 := by omega
    rw [writeChunk_fails hFirst]
    refine iff_of_false (fun hNil => ?_) (not_takesAll hPtr hFirst)
    rw [← hNil] at hPtr
    exact lt_irrefl 0 hPtr
  | case3 write ptr hPtr =>
    obtain rfl : ptr = [] := List.length_eq_zero_iff.mp (Nat.eq_zero_of_not_pos hPtr)
    exact iff_of_true writeChunk_nil takesAll_nil

end

/-! ## Whole runs -/

section

variable (env : Env) (log : List UInt8)

/-- A round appends what is written of its chunk. -/
theorem round_eq (write : Nat → Int) (chunk : List UInt8) :
    round write chunk log = log ++ writeChunk write chunk := by
  cases chunk with
  | nil => rw [writeChunk_nil, List.append_nil]; rfl
  | cons byte chunk => exact if_pos (Nat.succ_pos _)

theorem logAt_succ (i : Nat) :
    logAt env log (i + 1) = logAt env log i ++ writeChunk (env.write i) (env.klogctl i) :=
  round_eq _ _ _

theorem chunksBefore_succ (i : Nat) :
    chunksBefore env (i + 1) = chunksBefore env i ++ env.klogctl i := by
  rw [chunksBefore, List.range_succ, List.flatMap_append, List.flatMap_singleton]
  rfl

/-- Nothing is written twice. -/
theorem length_logAt_le (i : Nat) :
    (logAt env log i).length ≤ (log ++ chunksBefore env i).length := by
  induction i with
  | zero => exact Nat.le_of_eq (congrArg List.length (List.append_nil log).symm)
  | succ i ih =>
    have hChunk := (writeChunk_prefix_ptr (env.write i) (env.klogctl i)).length_le
    rw [logAt_succ, chunksBefore_succ, ← List.append_assoc, List.length_append,
      List.length_append]
    omega

/-- At the start of a round the file holds what it held at first and all the chunks read so far
exactly when, in each round before, the writes in front of the first one that fails take the
whole chunk. -/
theorem logAt_eq_iff (i : Nat) :
    logAt env log i = log ++ chunksBefore env i ↔
      ∀ j < i, TakesAll (env.write j) (env.klogctl j) := by
  induction i with
  | zero =>
    refine iff_of_true (List.append_nil log).symm ?_
    intro j hj
    omega
  | succ i ih =>
    have hLog := length_logAt_le env log i
    have hChunk := (writeChunk_prefix_ptr (env.write i) (env.klogctl i)).length_le
    rw [Nat.forall_lt_succ_right, ← ih, ← writeChunk_eq_iff, logAt_succ, chunksBefore_succ,
      ← List.append_assoc]
    constructor
    · intro hEq
      have hLength : (logAt env log i).length +
          (writeChunk (env.write i) (env.klogctl i)).length =
            (log ++ chunksBefore env i).length + (env.klogctl i).length := by
        rw [← List.length_append, ← List.length_append, hEq]
      exact List.append_inj hEq (by omega)
    · rintro ⟨hBefore, hHere⟩
      rw [hBefore, hHere]

end

/-- A chunk of two bytes, of which the first is written before an error. -/
def interrupted : Env where
  klogctl i := if i = 0 then [60, 54] else []
  write _ i := if i = 0 then 1 else -1

/-- The rest of the chunk is lost. -/
theorem logAt_interrupted :
    logAt interrupted [] 1 = [60] ∧ logAt interrupted [] 1 ≠ [] ++ chunksBefore interrupted 1 := by
  have hChunk : writeChunk (interrupted.write 0) [60, 54] = [60] := by
    rw [writeChunk_takes (by decide) (by decide), writeChunk_fails (by decide)]
    rfl
  have hLog : logAt interrupted [] 1 = [60] := (logAt_succ interrupted [] 0).trans hChunk
  refine ⟨hLog, ?_⟩
  rw [hLog]
  decide

end DebugCode.Kmesg
