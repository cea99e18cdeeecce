import Mathlib.Algebra.BigOperators.Intervals
import Mathlib.Algebra.Order.BigOperators.Group.Finset
import DebugCode.Benchmark.Functions

/-!
# The bytes behind the rates

The sizes `main` derives from its options, and the bytes the timed passes move. A rate is
computed from the size of the test, whatever has been moved.

* `mem_blockSizes`: the block sizes of the loops of `main`, as long as `bs` does not overflow.
* `writeCalls_moved`, `readCalls_moved`: the bytes moved in the passes of a run without failures.
* `total_eq_size_iff`: the transfers of a pass add up to the size only when the size consists of
  whole blocks, their number fits into an `int`, and every transfer is complete.
* `moved_eq_size_iff`: when the bytes moved are those of the rate.
-/

namespace DebugCode.Benchmark

open Lib

/-! ## The sizes -/

/-- `MEG` -/
def meg : Int := 1024 * 1024

/-- `MIN_SIZE` -/
def minSize : Int := 512

/-- The options `-s` and `-m`, in MB. -/
structure Options where
  sz : Int := 64
  maxSz : Int := 8

/-- The size of the test in bytes: `sz` is at least `max_sz`. -/
def Options.size (options : Options) : Int :=
  toLong ((if options.sz < options.maxSz then options.maxSz else options.sz) * meg)

def Options.maxSize (options : Options) : Int := toLong (options.maxSz * meg)

/-- `for (bs = MIN_SIZE; bs <= max_sz; bs <<= 1)`, for at most `fuel` rounds. -/
def blockSizes (maxSize : Int) : Nat → Int → List Int
  | 0, _ => []
  | fuel + 1, bs =>
    if bs ≤ maxSize then bs :: blockSizes maxSize fuel (toLong (bs * 2)) else []

/-- What `main` passes on for the `k`th block size. -/
def Options.params (options : Options) (filename : CString) (repeats k : Nat) : Params where
  filename := filename
  size := options.size
  blocksize := minSize * 2 ^ k
  repeats := repeats

theorem toLong_double {k : Nat} (hk : k < 53) :
    toLong (minSize * 2 ^ k * 2) = minSize * 2 ^ (k + 1) := by
  have hPow : (2 : Int) ^ (k + 1) ≤ 2 ^ 53 := pow_le_pow_right₀ (by norm_num) (by omega)
  have hPos : (0 : Int) < 2 ^ (k + 1) := by positivity
  have hDouble : minSize * 2 ^ k * 2 = minSize * 2 ^ (k + 1) := by ring
  rw [hDouble]
  refine toLong_of_lt (x := minSize * 2 ^ (k + 1)) ?_ ?_
  · exact Int.mul_nonneg (by decide) hPos.le
  · unfold minSize
    omega

/-- Before `bs` overflows, the loop tries `MIN_SIZE` times each power of two up to the
maximum. -/
theorem mem_blockSizes_from {maxSize bs : Int} (fuel k : Nat) (hFuel : fuel + k ≤ 54) :
    bs ∈ blockSizes maxSize fuel (minSize * 2 ^ k) ↔
      ∃ i, k ≤ i ∧ i < k + fuel ∧ bs = minSize * 2 ^ i ∧ bs ≤ maxSize := by
  induction fuel generalizing k with
  | zero =>
    refine iff_of_false List.not_mem_nil ?_
    rintro ⟨i, hLow, hHigh, -⟩
    omega
  | succ fuel ih =>
    have hRest : bs ∈ blockSizes maxSize fuel (toLong (minSize * 2 ^ k * 2)) ↔
        ∃ i, k + 1 ≤ i ∧ i < k + 1 + fuel ∧ bs = minSize * 2 ^ i ∧ bs ≤ maxSize := by
      cases fuel with
      | zero =>
        refine iff_of_false List.not_mem_nil ?_
        rintro ⟨i, hLow, hHigh, -⟩
        omega
      | succ fuel =>
        rw [toLong_double (by omega)]
        exact ih (k + 1) (by omega)
    rw [blockSizes]
    by_cases hMax : minSize * 2 ^ k ≤ maxSize
    · rw [if_pos hMax, List.mem_cons, hRest]
      constructor
      · rintro (rfl | ⟨i, hLow, hHigh, hBlock⟩)
        · exact ⟨k, le_rfl, by omega, rfl, hMax⟩
        · exact ⟨i, by omega, by omega, hBlock⟩
      · rintro ⟨i, hLow, hHigh, rfl, hBlock⟩
        rcases Nat.eq_or_lt_of_le hLow with rfl | hLater
        · exact .inl rfl
        · exact .inr ⟨i, hLater, by omega, rfl, hBlock⟩
    · rw [if_neg hMax]
      refine iff_of_false List.not_mem_nil ?_
      rintro ⟨i, hLow, -, rfl, hBlock⟩
      have hPow : (2 : Int) ^ k ≤ 2 ^ i := pow_le_pow_right₀ (by norm_num) hLow
      have hMin : minSize * 2 ^ k ≤ minSize * 2 ^ i :=
        Int.mul_le_mul_of_nonneg_left hPow (by decide)
      omega

/-- The block sizes that `main` tries are those of `Options.params`. -/
theorem mem_blockSizes (options : Options) (filename : CString) (repeats : Nat) (bs : Int) :
    bs ∈ blockSizes options.maxSize 54 minSize ↔
      ∃ k, bs = (options.params filename repeats k).blocksize ∧ bs ≤ options.maxSize := by
  have hFrom : bs ∈ blockSizes options.maxSize 54 (minSize * 2 ^ 0) ↔
      ∃ i, 0 ≤ i ∧ i < 0 + 54 ∧ bs = minSize * 2 ^ i ∧ bs ≤ options.maxSize :=
    mem_blockSizes_from 54 0 le_rfl
  rw [pow_zero, mul_one] at hFrom
  rw [hFrom]
  constructor
  · rintro ⟨k, -, -, hBlock⟩
    exact ⟨k, hBlock⟩
  · rintro ⟨k, rfl, hBlock⟩
    refine ⟨k, Nat.zero_le k, ?_, rfl, hBlock⟩
    by_contra hLarge
    have hPow : (2 : Int) ^ 54 ≤ 2 ^ k := pow_le_pow_right₀ (by norm_num) (by omega)
    have hMax : options.maxSize < 2 ^ 63 := toLong_lt _
    have hParams : minSize * 2 ^ k ≤ options.maxSize := hBlock
    unfold minSize at hParams
    omega

/-! ## The bytes of a pass -/

/-- The blocks of the size are whole, and an `int` counts them. -/
structure Params.WholeBlocks (params : Params) : Prop where
  nonneg : 0 ≤ params.size
  dvd : params.blocksize ∣ params.size
  lt : params.size / params.blocksize < 2 ^ 31

/-- Each transfer moves between nothing and a whole block. -/
def Params.Transfers (params : Params) (transfer : Nat → Nat → Int) : Prop :=
  ∀ j i, 0 ≤ transfer j i ∧ transfer j i ≤ params.blocksize

/-- Each transfer of pass `j` moves a whole block. -/
def Params.Complete (params : Params) (transfer : Nat → Nat → Int) (j : Nat) : Prop :=
  ∀ i < blockCount params.size params.blocksize, transfer j i = params.blocksize

section

variable {params : Params}

/-- The rounds of a pass move at most the size. -/
theorem blockCount_mul_le (hBlock : 0 < params.blocksize) (hSize : 0 ≤ params.size) :
    blockCount params.size params.blocksize * params.blocksize ≤ params.size := by
  have hQuotient : 0 ≤ params.size / params.blocksize := Int.ediv_nonneg hSize hBlock.le
  have hCount : (blockCount params.size params.blocksize : Int) ≤
      params.size / params.blocksize := by
    have hLe := toInt_le hQuotient
    rw [blockCount, Int.tdiv_eq_ediv_of_nonneg hSize]
    omega
  calc (blockCount params.size params.blocksize : Int) * params.blocksize
      ≤ params.size / params.blocksize * params.blocksize :=
        Int.mul_le_mul_of_nonneg_right hCount hBlock.le
    _ ≤ params.size := Int.ediv_mul_le _ hBlock.ne'

/-- They move the whole size only when it consists of whole blocks. -/
theorem blockCount_mul_eq_iff (hBlock : 0 < params.blocksize) :
    blockCount params.size params.blocksize * params.blocksize = params.size ↔
      params.WholeBlocks := by
  constructor
  · intro hEq
    have hSize : 0 ≤ params.size := hEq ▸ Int.mul_nonneg (Int.natCast_nonneg _) hBlock.le
    have hQuotient : params.size / params.blocksize =
        blockCount params.size params.blocksize := by
      conv_lhs => rw [← hEq]
      exact Int.mul_ediv_cancel _ hBlock.ne'
    refine ⟨hSize, ⟨_, by rw [mul_comm]; exact hEq.symm⟩, ?_⟩
    have hNonneg : 0 ≤ params.size / params.blocksize := Int.ediv_nonneg hSize hBlock.le
    have hLt := toInt_lt (params.size / params.blocksize)
    rw [blockCount, Int.tdiv_eq_ediv_of_nonneg hSize] at hQuotient
    omega
  · rintro ⟨hSize, hDvd, hLt⟩
    have hNonneg : 0 ≤ params.size / params.blocksize := Int.ediv_nonneg hSize hBlock.le
    have hCount : (blockCount params.size params.blocksize : Int) =
        params.size / params.blocksize := by
      rw [blockCount, Int.tdiv_eq_ediv_of_nonneg hSize, (toInt_eq_self_iff hNonneg).mpr hLt]
      exact Int.toNat_of_nonneg hNonneg
    rw [hCount]
    exact Int.ediv_mul_cancel hDvd

/-- What a pass moves. -/
def Params.total (params : Params) (transfer : Nat → Nat → Int) (j : Nat) : Int :=
  ∑ i ∈ Finset.range (blockCount params.size params.blocksize), transfer j i

theorem total_eq_size_iff (hBlock : 0 < params.blocksize) {transfer : Nat → Nat → Int}
    (hTransfers : params.Transfers transfer) (j : Nat) :
    params.total transfer j = params.size ↔ params.WholeBlocks ∧ params.Complete transfer j := by
  have hLe : ∀ i ∈ Finset.range (blockCount params.size params.blocksize),
      transfer j i ≤ params.blocksize := fun i _ => (hTransfers j i).2
  have hSum : ∑ _i ∈ Finset.range (blockCount params.size params.blocksize), params.blocksize =
      blockCount params.size params.blocksize * params.blocksize := by
    rw [Finset.sum_const, Finset.card_range, nsmul_eq_mul]
  have hComplete : params.total transfer j =
      blockCount params.size params.blocksize * params.blocksize ↔ params.Complete transfer j := by
    rw [← hSum]
    refine (Finset.sum_eq_sum_iff_of_le hLe).trans ?_
    simp only [Finset.mem_range]
    rfl
  have hTotal : params.total transfer j ≤
      blockCount params.size params.blocksize * params.blocksize :=
    hSum ▸ Finset.sum_le_sum hLe
  constructor
  · intro hEq
    have hSize : 0 ≤ params.size := hEq ▸ Finset.sum_nonneg fun i _ => (hTransfers j i).1
    have hUpper := blockCount_mul_le hBlock hSize
    have hWhole : blockCount params.size params.blocksize * params.blocksize = params.size := by
      omega
    exact ⟨(blockCount_mul_eq_iff hBlock).mp hWhole, hComplete.mp (hEq.trans hWhole.symm)⟩
  · rintro ⟨hWhole, hAll⟩
    exact (hComplete.mpr hAll).trans ((blockCount_mul_eq_iff hBlock).mpr hWhole)

/-! ## The bytes along the scripts -/

/-- The bytes of the first `j` passes. -/
def World.Moved (params : Params) (transfer : Nat → Nat → Int) (j : Nat) (w : World) : Prop :=
  ∀ i < j, w.moved i = params.total transfer i

variable {drop : Drop} {env : Env} {S : Script Call World} {transfer : Nat → Nat → Int} {j : Nat}

/-- A call outside of the timed part of a pass. -/
theorem untimed_cons {c : Call} {cs : List Call} {K : World → Prop}
    (hUntimed : ∀ w, (S.ok c w).moved = w.moved)
    (hRest : S.Triple (fun _ _ => True) (World.Moved params transfer j) cs K) :
    S.Triple (fun _ _ => True) (World.Moved params transfer j) (c :: cs) K := by
  refine .cons (fun _ _ _ => trivial) ?_ hRest
  intro w hMoved _ i hi
  rw [hUntimed]
  exact hMoved i hi

theorem untimed_loop {call : Nat → Call} (hUntimed : ∀ i w, (S.ok (call i) w).moved = w.moved)
    (n : Nat) :
    S.Triple (fun _ _ => True) (World.Moved params transfer j) ((List.range n).map call)
      (World.Moved params transfer j) := by
  refine .loop_map (I := fun _ => World.Moved params transfer j) (fun _ _ _ _ _ => trivial) ?_
  intro m _ w hMoved _ i hi
  rw [hUntimed]
  exact hMoved i hi

/-- The timed part of a pass. -/
theorem timed_triple {call : Nat → Call} (hCount : S.ok (.count j) = World.timed j)
    (hCall : ∀ i, S.ok (call i) = World.transferred j (transfer j i)) :
    S.Triple (fun _ _ => True) (World.Moved params transfer j)
      (.count j :: (List.range (blockCount params.size params.blocksize)).map call)
      (World.Moved params transfer (j + 1)) := by
  have hLoop : S.Triple (fun _ _ => True)
      (fun w => World.Moved params transfer j w ∧ w.moved j = 0)
      ((List.range (blockCount params.size params.blocksize)).map call)
      (fun w => World.Moved params transfer j w ∧ w.moved j = params.total transfer j) := by
    refine .loop_map (I := fun n w => World.Moved params transfer j w ∧
      w.moved j = ∑ i ∈ Finset.range n, transfer j i) (fun _ _ _ _ _ => trivial) ?_
    rintro n - w ⟨hMoved, hHere⟩ -
    rw [hCall]
    constructor
    · intro i hi
      exact (Function.update_of_ne (Nat.ne_of_lt hi) _ _).trans (hMoved i hi)
    · rw [Finset.sum_range_succ, ← hHere]
      exact Function.update_self _ _ _
  refine .cons (fun _ _ _ => trivial) ?_ (hLoop.weaken ?_)
  · intro w hMoved _
    rw [hCount]
    constructor
    · intro i hi
      exact (Function.update_of_ne (Nat.ne_of_lt hi) _ _).trans (hMoved i hi)
    · exact Function.update_self _ _ _
  · rintro w ⟨hMoved, hHere⟩ i hi
    rcases Nat.lt_succ_iff_lt_or_eq.mp hi with hEarlier | rfl
    · exact hMoved i hEarlier
    · exact hHere

theorem writeCalls_moved :
    (writeScript drop env params).Triple (fun _ _ => True) (World.Moved params env.write 0)
      (writeCalls params) (World.Moved params env.write params.repeats) := by
  refine untimed_cons (fun _ => rfl) <| untimed_cons (fun _ => rfl) <|
    .append (.loop (I := World.Moved params env.write) fun j _ => ?_) <|
    untimed_cons (fun _ => rfl) <| untimed_cons (fun _ => rfl) <| .nil fun _ h => h
  exact untimed_cons (fun _ => rfl) <|
    (timed_triple rfl fun _ => rfl).append <| untimed_cons (fun _ => rfl) <| .nil fun _ h => h

theorem readCalls_moved :
    (readScript drop env params).Triple (fun _ _ => True) (World.Moved params env.read 0)
      (readCalls params) (World.Moved params env.read params.repeats) := by
  refine untimed_cons (fun _ => rfl) <| untimed_cons (fun _ => rfl) <|
    .append (.loop (I := World.Moved params env.read) fun j _ => ?_) <|
    untimed_cons (fun _ => rfl) <| untimed_cons (fun _ => rfl) <| .nil fun _ h => h
  refine untimed_cons (fun _ => rfl) <| untimed_cons (fun _ => rfl) <|
    .append (untimed_loop (fun _ _ => rfl) _) <|
    untimed_cons (fun _ => rfl) <| untimed_cons (fun _ => rfl) <| untimed_cons (fun _ => rfl) ?_
  exact (timed_triple rfl fun _ => rfl).append <|
    untimed_cons (fun _ => rfl) <| untimed_cons (fun _ => rfl) <| .nil fun _ h => h

/-- A function that follows a script and returns 0 has made all its passes. -/
theorem moved_of_follows {p : Prog Exit World} {cs : List Call}
    (hFollows : S.Follows exit cs p)
    (hTriple : S.Triple (fun _ _ => True) (World.Moved params transfer 0) cs
      (World.Moved params transfer params.repeats))
    {w : World} (hReturn : result p = (.returned 0, w)) :
    World.Moved params transfer params.repeats w := by
  rw [result, hFollows, Script.run_exit] at hReturn
  obtain ⟨hCode, rfl⟩ := Prod.mk.inj hReturn
  refine hTriple.of_none (fun i hi => absurd hi (Nat.not_lt_zero i)) ?_
  cases hExit : cs.find? S.fails with
  | none => rfl
  | some c =>
    rw [hExit] at hCode
    cases c <;> cases hCode

theorem moved_iff {w : World} (hMoved : World.Moved params transfer params.repeats w)
    (hBlock : 0 < params.blocksize) (hTransfers : params.Transfers transfer) :
    (∀ j < params.repeats, w.moved j = params.size) ↔
      ∀ j < params.repeats, params.WholeBlocks ∧ params.Complete transfer j := by
  refine forall₂_congr fun j hj => ?_
  rw [hMoved j hj]
  exact total_eq_size_iff hBlock hTransfers j

end

/-- When a function returns 0 for a block size that `main` tries, its passes have moved the bytes
of the printed rates exactly when the size consists of whole blocks, fewer than `2 ^ 31`, and no
transfer was short. -/
theorem moved_eq_size_iff (options : Options) (filename : CString) (repeats k : Nat) (drop : Drop)
    (env : Env) (w : World) :
    ((options.params filename repeats k).Transfers env.write →
      result (benchmarkWriteLargeFile drop env (options.params filename repeats k)) =
        (.returned 0, w) →
      ((∀ j < repeats, w.moved j = options.size) ↔
        ∀ j < repeats, (options.params filename repeats k).WholeBlocks ∧
          (options.params filename repeats k).Complete env.write j)) ∧
    ((options.params filename repeats k).Transfers env.read →
      result (benchmarkReadLargeFile drop env (options.params filename repeats k)) =
        (.returned 0, w) →
      ((∀ j < repeats, w.moved j = options.size) ↔
        ∀ j < repeats, (options.params filename repeats k).WholeBlocks ∧
          (options.params filename repeats k).Complete env.read j)) := by
  have hBlock : 0 < (options.params filename repeats k).blocksize :=
    Int.mul_pos (by decide) (by positivity)
  constructor
  · intro hTransfers hReturn
    exact moved_iff (moved_of_follows benchmarkWriteLargeFile_follows writeCalls_moved hReturn)
      hBlock hTransfers
  · intro hTransfers hReturn
    exact moved_iff (moved_of_follows benchmarkReadLargeFile_follows readCalls_moved hReturn)
      hBlock hTransfers

/-- A device that moves `n` bytes in each transfer. -/
def moves (n : Int) : Env where
  malloc := true
  openWrite _ := true
  write _ _ := n
  openRead _ := true
  read _ _ := n

theorem moved_eq_size_iff_oneMeg :
    (∃ w, result (benchmarkWriteLargeFile noDrop (moves meg)
        (Options.params ⟨1, 1⟩ (CString.literal "rawdata.dat") 1 11)) = (.returned 0, w) ∧
      ((∀ j < 1, w.moved j = Options.size ⟨1, 1⟩) ↔
        ∀ j < 1, (Options.params ⟨1, 1⟩ (CString.literal "rawdata.dat") 1 11).WholeBlocks ∧
          (Options.params ⟨1, 1⟩ (CString.literal "rawdata.dat") 1 11).Complete
            (moves meg).write j)) ∧
    ∃ w, result (benchmarkReadLargeFile noDrop (moves meg)
        (Options.params ⟨1, 1⟩ (CString.literal "rawdata.dat") 1 11)) = (.returned 0, w) ∧
      ((∀ j < 1, w.moved j = Options.size ⟨1, 1⟩) ↔
        ∀ j < 1, (Options.params ⟨1, 1⟩ (CString.literal "rawdata.dat") 1 11).WholeBlocks ∧
          (Options.params ⟨1, 1⟩ (CString.literal "rawdata.dat") 1 11).Complete
            (moves meg).read j) := by
  have hBlock : 0 ≤ meg ∧ meg ≤ minSize * 2 ^ 11 := by decide
  exact ⟨⟨_, rfl, (moved_eq_size_iff ⟨1, 1⟩ _ 1 11 noDrop _ _).1 (fun _ _ => hBlock) rfl⟩,
    ⟨_, rfl, (moved_eq_size_iff ⟨1, 1⟩ _ 1 11 noDrop _ _).2 (fun _ _ => hBlock) rfl⟩⟩

/-- With `-s 3 -m 2`, the blocks of 2 MB leave 1 MB of the size out. -/
theorem moved_ne_size_threeMeg : ∃ w,
    result (benchmarkWriteLargeFile noDrop (moves (2 * meg))
      (Options.params ⟨3, 2⟩ (CString.literal "rawdata.dat") 1 12)) = (.returned 0, w) ∧
    minSize * 2 ^ 12 ≤ Options.maxSize ⟨3, 2⟩ ∧ w.moved 0 = 2 * meg ∧
      Options.size ⟨3, 2⟩ = 3 * meg :=
  ⟨_, rfl, by decide, rfl, by decide⟩

end DebugCode.Benchmark
