import DebugCode.Lib.CInt
import Mathlib.Algebra.Order.Floor.Div
import Mathlib.Data.List.Sort

/-!
# The block map of a file

`fibmap.c` asks for the size of a file and of its blocks, and then for the place of each block.
The number of blocks is computed in a `long` and kept in an `int`. A call that fails leaves some
number behind, and this number is printed all the same.

* `entries_main`: what is printed once the file could be opened and measured.
* `toNat_numBlocks`: the number of blocks that are asked for.
* `asked_eq_blocks`: with fewer than `2 ^ 31` blocks, all of them are.
* `printsBlockMap_iff`: the map is right when exactly the calls that are made succeed.
-/

namespace DebugCode.Fibmap

open Lib

/-- What an `ioctl` with `FIBMAP` gives: its result and the number it leaves in the block. -/
structure Reply where
  result : Int
  block : Int

/-- What the calls of a run return: the file descriptor, the results of `FIGETBSZ` and `fstat` with
the sizes they leave, the reply for each block, and the text of the error where it has failed. -/
structure Kernel where
  fd : Int
  figetbsz : Int
  blockSize : Int
  fstat : Int
  stSize : Int
  fibmap : Int → Reply
  strerror : Int → String

/-- What a run prints. The entries carry the number of their round, which is not printed. -/
inductive Output
  | stderr (text : String)
  /-- `File: %s: %d x %d byte blocks` -/
  | header (file : String) (numBlocks blockSize : Int)
  /-- `ioctl failed: %s` -/
  | failed (strerror : String)
  /-- `%10d` -/
  | entry (i : ℕ) (block : Int)
  | newline
  deriving DecidableEq

/-- `int num_blocks`, from a sum and a quotient of `long`s. -/
def numBlocks (stSize blockSize : Int) : Int :=
  toInt ((toLong (toLong (stSize + blockSize) - 1)).tdiv blockSize)

/-- A round of the loop. -/
def round (k : Kernel) (i : ℕ) : List Output :=
  let reply := k.fibmap i
  (if reply.result ≠ 0 then [.failed (k.strerror i)] else []) ++ [.entry i reply.block]

/-- `main`, with what it prints and the exit status. -/
def main (argv : List String) (k : Kernel) : List Output × ℕ :=
  match argv with
  | [_, file] =>
    if k.fd < 0 then ([.stderr ("Cannot open " ++ file ++ "\n")], 1)
    else if k.figetbsz < 0 then ([.stderr "Cannot get block size\n"], 1)
    else if k.fstat < 0 then ([.stderr ("Cannot stat " ++ file ++ "\n")], 1)
    else
      let numBlocks := numBlocks k.stSize k.blockSize
      (.header file numBlocks k.blockSize ::
        (List.range numBlocks.toNat).flatMap (round k) ++ [.newline], 0)
  | _ => ([.stderr ("Syntax: " ++ argv.headD "" ++ " filename\n")], 1)

/-- The numbers that are printed, each with its round. -/
def entries (out : List Output) : List (ℕ × Int) :=
  out.filterMap fun
    | .entry i block => some (i, block)
    | _ => none

/-- A file that can be opened and measured. -/
structure File where
  stSize : ℕ
  stSize_lt : stSize < 2 ^ 63
  blockSize : ℕ
  blockSize_pos : 0 < blockSize
  blockSize_lt : blockSize < 2 ^ 31
  fibmap : ℕ → Reply

/-- What the calls of a run return for a file. -/
def File.kernel (f : File) (fd : ℕ) (strerror : Int → String) : Kernel where
  fd := fd
  figetbsz := 0
  blockSize := f.blockSize
  fstat := 0
  stSize := f.stSize
  fibmap i := f.fibmap i.toNat
  strerror := strerror

namespace File

variable (f : File)

/-- The number of blocks of a file, the last one counted as a whole. -/
def blocks : ℕ := f.stSize ⌈/⌉ f.blockSize

/-- The map: the blocks whose place is known, each with its place. -/
def blockMap : List (ℕ × Int) :=
  ((List.range f.blocks).filter fun i => (f.fibmap i).result = 0).map fun i =>
    (i, (f.fibmap i).block)

/-- The run prints the map and no other number. -/
def PrintsBlockMap : Prop :=
  ∀ (program file : String) (fd : ℕ) (strerror : Int → String),
    entries (main [program, file] (f.kernel fd strerror)).1 = f.blockMap

/-- How many blocks come out of the two conversions: the number as an `int`, or the quotient of
the wrapped sum where the sum does not fit in a `long`. -/
def asked : ℕ :=
  (toInt (if f.stSize + f.blockSize ≤ 2 ^ 63 then f.blocks
    else -((2 ^ 64 - (f.stSize + f.blockSize - 1)) / f.blockSize : ℕ))).toNat

end File

/-! ## What is printed -/

theorem entries_append (out out' : List Output) :
    entries (out ++ out') = entries out ++ entries out' := List.filterMap_append

/-- A round prints one number, whatever the call has returned. -/
theorem entries_round (k : Kernel) (i : ℕ) : entries (round k i) = [(i, (k.fibmap i).block)] := by
  rw [round, entries_append]
  split
  · rfl
  · rfl

theorem entries_rounds (k : Kernel) (l : List ℕ) :
    entries (l.flatMap (round k)) = l.map fun i : ℕ => (i, (k.fibmap i).block) := by
  induction l with
  | nil => rfl
  | cons i l ih =>
    rw [List.flatMap_cons, entries_append, entries_round, ih, List.map_cons, List.singleton_append]

/-- Where the file cannot be opened and measured, no number is printed. -/
theorem entries_main_of_failed {argv : List String} {k : Kernel} (hFailed : (main argv k).2 ≠ 0) :
    entries (main argv k).1 = [] := by
  rcases argv with _ | ⟨program, _ | ⟨file, _ | ⟨more, argv⟩⟩⟩
  · rfl
  · rfl
  · rw [main] at hFailed ⊢
    split_ifs at hFailed ⊢
    · rfl
    · rfl
    · rfl
    · exact absurd rfl hFailed
  · rfl

/-! ## The number of blocks -/

namespace File

variable {f : File}

/-- The number of blocks that are asked for. -/
theorem toNat_numBlocks (f : File) : (numBlocks f.stSize f.blockSize).toNat = f.asked := by
  have hSize := f.stSize_lt
  have hPos := f.blockSize_pos
  have hBlock := f.blockSize_lt
  rw [numBlocks, asked]
  split
  · -- The sum and the quotient are what they should be.
    have hSum : toLong (toLong (f.stSize + f.blockSize) - 1) =
        (f.stSize + f.blockSize - 1 : ℕ) := by
      rw [toLong, toLong, Int.bmod_def, Int.bmod_def]
      omega
    rw [hSum, ← Int.ofNat_tdiv, blocks, Nat.ceilDiv_eq_add_pred_div]
  · -- The sum has wrapped to a negative number, which is rounded towards zero.
    have hSum : toLong (toLong (f.stSize + f.blockSize) - 1) =
        -(2 ^ 64 - (f.stSize + f.blockSize - 1) : ℕ) := by
      rw [toLong, toLong, Int.bmod_def, Int.bmod_def]
      omega
    rw [hSum, Int.neg_tdiv, ← Int.ofNat_tdiv]

theorem le_blocks (hOverflow : 2 ^ 63 < f.stSize + f.blockSize) : 2 ^ 31 ≤ f.blocks := by
  have hBlock := f.blockSize_lt
  rw [blocks, Nat.ceilDiv_eq_add_pred_div, Nat.le_div_iff_mul_le f.blockSize_pos]
  omega

/-- No block is asked for that the file does not have. -/
theorem asked_le_blocks (f : File) : f.asked ≤ f.blocks := by
  rw [asked]
  split
  · have hLe := toInt_le (Int.natCast_nonneg f.blocks)
    omega
  · rename_i hOverflow
    have hLe := le_blocks (Nat.not_le.mp hOverflow)
    have hLt := toInt_lt (-((2 ^ 64 - (f.stSize + f.blockSize - 1)) / f.blockSize : ℕ))
    omega

/-- With fewer than `2 ^ 31` blocks, all of them are asked for. -/
theorem asked_eq_blocks (hFew : f.blocks < 2 ^ 31) : f.asked = f.blocks := by
  have hFits : f.stSize + f.blockSize ≤ 2 ^ 63 := by
    by_contra hOverflow
    exact absurd (le_blocks (Nat.not_le.mp hOverflow)) (Nat.not_le.mpr hFew)
  rw [asked, if_pos hFits, toInt_of_nonneg (Int.natCast_nonneg _) (by exact_mod_cast hFew),
    Int.toNat_natCast]

/-- What is printed are the replies to the blocks that are asked for. -/
theorem entries_main (f : File) (program file : String) (fd : ℕ) (strerror : Int → String) :
    entries (main [program, file] (f.kernel fd strerror)).1 =
      (List.range f.asked).map fun i => (i, (f.fibmap i).block) := by
  have hMain : (main [program, file] (f.kernel fd strerror)).1 =
      .header file (numBlocks f.stSize f.blockSize) f.blockSize ::
        (List.range f.asked).flatMap (round (f.kernel fd strerror)) ++ [.newline] := by
    have hOpened : ¬ (f.kernel fd strerror).fd < 0 := (Int.natCast_nonneg fd).not_gt
    have hSized : ¬ (f.kernel fd strerror).figetbsz < 0 := lt_irrefl _
    have hMeasured : ¬ (f.kernel fd strerror).fstat < 0 := lt_irrefl _
    rw [main, if_neg hOpened, if_neg hSized, if_neg hMeasured, ← toNat_numBlocks]
    rfl
  rw [hMain, entries_append]
  show entries (List.flatMap _ _) ++ [] = _
  rw [List.append_nil]
  exact entries_rounds _ _

/-- The map is printed when the calls that are made are the ones that succeed. -/
theorem printsBlockMap_iff (f : File) :
    f.PrintsBlockMap ↔ ∀ i < f.blocks, ((f.fibmap i).result = 0 ↔ i < f.asked) := by
  have hInjective : Function.Injective fun i => (i, (f.fibmap i).block) :=
    fun i j hPair => congrArg Prod.fst hPair
  have hSame : f.PrintsBlockMap ↔
      List.range f.asked = (List.range f.blocks).filter fun i => (f.fibmap i).result = 0 := by
    simp only [PrintsBlockMap, entries_main, blockMap, forall_const, hInjective.list_map.eq_iff]
  rw [hSame]
  constructor
  · intro hRange i hLt
    have hMem : i ∈ List.range f.asked ↔ i ∈ (List.range f.blocks).filter
        fun i => (f.fibmap i).result = 0 := by rw [hRange]
    rw [List.mem_range, List.mem_filter, List.mem_range, decide_eq_true_iff] at hMem
    rw [hMem, and_iff_right hLt]
  · intro hReplies
    refine List.pairwise_lt_range.eq_of_mem_iff (List.pairwise_lt_range.filter _) fun i => ?_
    rw [List.mem_range, List.mem_filter, List.mem_range, decide_eq_true_iff]
    constructor
    · intro hAsked
      have hLt := hAsked.trans_le f.asked_le_blocks
      exact ⟨hLt, (hReplies i hLt).mpr hAsked⟩
    · intro ⟨hLt, hResult⟩
      exact (hReplies i hLt).mp hResult

end File

/-- A file of one block, for which `FIBMAP` fails and leaves `0`. -/
def hole : File where
  stSize := 1
  stSize_lt := by decide
  blockSize := 4096
  blockSize_pos := by decide
  blockSize_lt := by decide
  fibmap _ := ⟨-1, 0⟩

/-- A block without a place is listed with the number left behind. -/
theorem not_printsBlockMap_hole : ¬ ∀ f : File, f.PrintsBlockMap := by
  intro hAll
  have hMap := hAll hole "fibmap" "file" 3 fun _ => "Input/output error"
  exact absurd hMap (by decide)

end DebugCode.Fibmap
