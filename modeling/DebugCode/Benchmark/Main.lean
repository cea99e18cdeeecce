import DebugCode.Benchmark.Rates
import DebugCode.Benchmark.Release
import Mathlib.Data.Nat.Size

/-!
# A run of the flash benchmark

`main` calls the two functions for one block size after the other and leaves at the first one that
fails. The file that the functions write is what such a run may leave behind, and there may have
been one of that name before.

* `formatSize_row`: the label of a row is its block size.
* `rowsLoop_eq`: the loop over the block sizes, before `bs` overflows.
* `main_follows`: `main` follows one script, made of the scripts of the rows.
* `main_leaves`: how `main` ends, and whether there is a file of that name then.
* `interrupted_file`: whether there is one after SIGINT.
-/

namespace DebugCode.Benchmark

open Lib

/-! ## The program -/

/-- The loops of `main`: the write test and the read test. -/
inductive Phase
  | write
  | read
  deriving DecidableEq

inductive MainExit
  | success
  | failure
  | sigfpe
  deriving DecidableEq

/-- What the options set. -/
structure Arguments where
  options : Options := {}
  filename : CString := CString.literal "rawdata.dat"
  repeats : Int := 3
  doRead : Bool := false
  doWrite : Bool := false

namespace Arguments

/-- Without `-R` and `-W` both tests are done. -/
def does (args : Arguments) : Phase → Bool
  | .write => args.doWrite || !args.doRead
  | .read => args.doRead || !args.doWrite

/-- What `main` passes on for a block size. -/
def params (args : Arguments) (bs : Int) : Params where
  filename := args.filename
  size := args.options.size
  blocksize := bs
  repeats := args.repeats.toNat

end Arguments

/-- The outcomes of all calls of a run: those of each row of each test. -/
structure Host where
  drop : Phase → ℕ → Drop
  env : Phase → ℕ → Env

/-- `if (benchmark_…_large_file(…) < 0) exit(EXIT_FAILURE);` -/
def exitOnError : Exit → Option MainExit
  | .returned code => if code < 0 then some .failure else none
  | .sigfpe => some .sigfpe

/-- `format_size`, the label of a row. -/
def formatSize (size : ℕ) : List UInt8 :=
  if size < 1024 then decimal size ++ ascii "B"
  else if size < 1024 * 1024 then decimal (size / 1024) ++ ascii "K"
  else decimal (size / (1024 * 1024)) ++ ascii "M"

/-- The body of the loop of a test. -/
def row (host : Host) (args : Arguments) (p : Phase) (k : ℕ) (bs : Int) : Prog MainExit World :=
  Prog.call exitOnError <|
    match p with
    | .write => benchmarkWriteLargeFile (host.drop p k) (host.env p k) (args.params bs)
    | .read => benchmarkReadLargeFile (host.drop p k) (host.env p k) (args.params bs)

/-- `for (bs=MIN_SIZE; bs<=max_sz; bs<<=1)`, from row `k` on. -/
def rowsLoop (body : ℕ → Int → Prog MainExit World) (maxSize : Int) :
    ℕ → ℕ → Int → World → Option (Option MainExit × World)
  | 0, _, _, _ => none
  | fuel + 1, k, bs, w =>
    if bs ≤ maxSize then
      match body k bs w with
      | (some e, w') => some (some e, w')
      | (none, w') => rowsLoop body maxSize fuel (k + 1) (toLong (bs * 2)) w'
    else some (none, w)

/-- A test, if it is to be done. -/
def test (host : Host) (args : Arguments) (fuel : ℕ) (p : Phase) (w : World) :
    Option (Option MainExit × World) :=
  if args.does p then rowsLoop (row host args p) args.options.maxSize fuel 0 minSize w
  else some (none, w)

/-- `exit(EXIT_SUCCESS)` at the end of `main`. -/
def ended (r : Option MainExit × World) : MainExit × World := (r.1.getD .success, r.2)

def main (host : Host) (root : Bool) (args : Arguments) (fuel : ℕ) (w : World) :
    Option (MainExit × World) :=
  if !root then some (.failure, w)
  else if args.repeats < 0 ∨ 11 < args.repeats then some (.failure, w)
  else
    match test host args fuel .write w with
    | none => none
    | some (some e, w') => some (e, w')
    | some (none, w') => (test host args fuel .read w').map ended

/-- `handler`, the answer to SIGINT. -/
def handler (args : Arguments) (w : World) : MainExit × World :=
  (.failure, w.unlinked (isNotDevice args.filename))

/-! ## The rows -/

/-- The number of block sizes `MIN_SIZE * 2 ^ k` up to the maximum. -/
def rowCount (maxSize : Int) : ℕ := (maxSize.toNat / 512).size

theorem lt_rowCount_iff {maxSize : Int} {k : ℕ} :
    k < rowCount maxSize ↔ minSize * 2 ^ k ≤ maxSize := by
  rw [rowCount, Nat.lt_size, Nat.le_div_iff_mul_le (by decide)]
  have hCast : ((2 ^ k * 512 : ℕ) : Int) = minSize * 2 ^ k := by
    unfold minSize
    push_cast
    ring
  have hPos : 0 < 2 ^ k * 512 := by positivity
  rw [← hCast]
  omega

theorem rowCount_le {maxSize : Int} (hMax : maxSize < 2 ^ 62) : rowCount maxSize ≤ 53 := by
  by_contra hMany
  have hLast := lt_rowCount_iff.mp (Nat.lt_of_not_le hMany)
  unfold minSize at hLast
  omega

/-- What a unit of `format_size` stands for. -/
def unitSize (c : UInt8) : ℕ := if c = 66 then 1 else if c = 75 then 1024 else 1024 * 1024

/-- The label of every row is its block size, not a rounded one. -/
theorem formatSize_row (k : ℕ) :
    ∃ n c, formatSize (minSize * 2 ^ k).toNat = decimal n ++ [c] ∧
      n * unitSize c = (minSize * 2 ^ k).toNat := by
  have hBlock : (minSize * 2 ^ k).toNat = 512 * 2 ^ k := by
    rw [show minSize * 2 ^ k = ((512 * 2 ^ k : ℕ) : Int) by simp [minSize], Int.toNat_natCast]
  rw [hBlock]
  by_cases hByte : k = 0
  · subst hByte
    exact ⟨512, 66, rfl, rfl⟩
  by_cases hKilo : k < 11
  · obtain ⟨i, rfl⟩ := Nat.exists_eq_add_of_le (Nat.one_le_iff_ne_zero.mpr hByte)
    have hSize : 512 * 2 ^ (1 + i) = 2 ^ i * 1024 := by ring
    have hSmall : 2 ^ i < 1024 := Nat.pow_lt_pow_right (by decide) (show i < 10 by omega)
    have hPos : 0 < 2 ^ i := by positivity
    refine ⟨2 ^ i, 75, ?_, hSize.symm⟩
    rw [hSize, formatSize, if_neg (by omega), if_pos (by omega),
      Nat.mul_div_cancel _ (by decide)]
    rfl
  · obtain ⟨i, rfl⟩ := Nat.exists_eq_add_of_le (Nat.le_of_not_lt hKilo)
    have hSize : 512 * 2 ^ (11 + i) = 2 ^ i * (1024 * 1024) := by ring
    have hPos : 0 < 2 ^ i := by positivity
    refine ⟨2 ^ i, 77, ?_, hSize.symm⟩
    rw [hSize, formatSize, if_neg (by omega), if_neg (by omega),
      Nat.mul_div_cancel _ (by decide)]
    rfl

/-- The rest of the loop, from row `k` on. -/
theorem rowsLoop_from (body : ℕ → Int → Prog MainExit World) {maxSize : Int}
    (hMax : maxSize < 2 ^ 62) (fuel n k : ℕ) (hRest : k + n = rowCount maxSize) (w : World) :
    rowsLoop body maxSize (fuel + n + 1) k (minSize * 2 ^ k) w =
      some (Prog.block ((List.range' k n).map fun i => body i (minSize * 2 ^ i)) w) := by
  induction n generalizing k w with
  | zero =>
    rw [rowsLoop, if_neg (lt_rowCount_iff.not.mp (by omega))]
    rfl
  | succ n ih =>
    have hRows := rowCount_le hMax
    rw [rowsLoop, if_pos (lt_rowCount_iff.mp (by omega)), toLong_double (by omega),
      List.range'_succ, List.map_cons]
    cases hRow : body k (minSize * 2 ^ k) w with
    | mk e w' =>
      cases e with
      | none => exact (ih (k + 1) (by omega) w').trans (congrArg some (Prog.seq_of_none hRow).symm)
      | some e => exact congrArg some (Prog.seq_of_some hRow).symm

theorem rowsLoop_eq (body : ℕ → Int → Prog MainExit World) {maxSize : Int}
    (hMax : maxSize < 2 ^ 62) {fuel : ℕ} (hFuel : 54 ≤ fuel) (w : World) :
    rowsLoop body maxSize fuel 0 minSize w =
      some (Prog.loop (rowCount maxSize) (fun k => body k (minSize * 2 ^ k)) w) := by
  have hRows := rowCount_le hMax
  obtain ⟨spare, rfl⟩ := Nat.exists_eq_add_of_le
    (show rowCount maxSize + 1 ≤ fuel by omega)
  have hLoop := rowsLoop_from body hMax spare (rowCount maxSize) 0 (Nat.zero_add _) w
  rw [pow_zero, mul_one, ← List.range_eq_range', Nat.add_assoc, Nat.add_comm spare] at hLoop
  exact hLoop

/-! ## The script of a run -/

/-- A call of one of the two functions, with its test and its row. -/
structure MainCall where
  phase : Phase
  row : ℕ
  call : Call
  deriving DecidableEq

/-- How `main` ends after the failure of a call. -/
def mainExit (c : MainCall) : MainExit :=
  match exit c.call with
  | .returned _ => .failure
  | .sigfpe => .sigfpe

/-- A function that fails ends the run. -/
theorem exitOnError_exit (p : Phase) (k : ℕ) (c : Call) :
    exitOnError (exit c) = some (mainExit ⟨p, k, c⟩) := by
  cases c <;> rfl

section

variable (host : Host) (args : Arguments)

def Arguments.rowParams (k : ℕ) : Params := args.params (minSize * 2 ^ k)

def rowScript (p : Phase) (k : ℕ) : Script Call World :=
  match p with
  | .write => writeScript (host.drop p k) (host.env p k) (args.rowParams k)
  | .read => readScript (host.drop p k) (host.env p k) (args.rowParams k)

def mainScript : Script MainCall World where
  fails c := (rowScript host args c.phase c.row).fails c.call
  ok c := (rowScript host args c.phase c.row).ok c.call
  bail c := (rowScript host args c.phase c.row).bail c.call

/-- The calls of a row when none fails. -/
def rowCalls (p : Phase) (k : ℕ) : List Call :=
  match p with
  | .write => writeCalls (args.rowParams k)
  | .read => readCalls (args.rowParams k)

def testCalls (p : Phase) : List MainCall :=
  if args.does p then
    (List.range (rowCount args.options.maxSize)).flatMap fun k =>
      (rowCalls args p k).map (MainCall.mk p k)
  else []

/-- The calls of a run when none fails. -/
def mainCalls : List MainCall := testCalls args .write ++ testCalls args .read

variable {host args}

theorem rowScript_embeds (p : Phase) (k : ℕ) :
    (rowScript host args p k).Embeds (mainScript host args) (MainCall.mk p k) :=
  ⟨fun _ => rfl, fun _ => rfl, fun _ => rfl⟩

theorem row_follows (p : Phase) (k : ℕ) :
    (mainScript host args).Follows mainExit ((rowCalls args p k).map (MainCall.mk p k))
      (row host args p k (minSize * 2 ^ k)) := by
  refine .call ?_ (rowScript_embeds p k) (exitOnError_exit p k)
  cases p with
  | write => exact benchmarkWriteLargeFile_follows
  | read => exact benchmarkReadLargeFile_follows

variable (host args) in
/-- A test of a run. -/
def testProg (p : Phase) : Prog MainExit World :=
  Prog.when (args.does p) <|
    Prog.loop (rowCount args.options.maxSize) fun k => row host args p k (minSize * 2 ^ k)

theorem main_follows :
    (mainScript host args).Follows mainExit (mainCalls args)
      (Prog.block [testProg host args .write, testProg host args .read]) := by
  rw [mainCalls, ← List.append_nil (testCalls args .read)]
  exact .append (.when _ (.loop _ (row_follows .write)))
    (.append (.when _ (.loop _ (row_follows .read))) .nil)

section

variable (hMax : args.options.maxSize < 2 ^ 62) {fuel : ℕ} (hFuel : 54 ≤ fuel)

include hMax hFuel

theorem test_eq (p : Phase) (w : World) :
    test host args fuel p w = some (testProg host args p w) := by
  rw [test, testProg, Prog.when_apply]
  cases args.does p with
  | true => exact rowsLoop_eq (row host args p) hMax hFuel w
  | false => rfl

theorem main_eq_block (hRepeats : 0 ≤ args.repeats ∧ args.repeats ≤ 11) (w : World) :
    main host true args fuel w =
      some (ended (Prog.block [testProg host args .write, testProg host args .read] w)) := by
  rw [main, if_neg (by simp), if_neg (by omega), test_eq hMax hFuel, Prog.block]
  cases hWrite : testProg host args .write w with
  | mk e w' =>
    cases e with
    | some e =>
      rw [Prog.seq_of_some hWrite]
      rfl
    | none =>
      rw [Prog.seq_of_none hWrite, Prog.block_singleton]
      exact congrArg (Option.map ended) (test_eq hMax hFuel .read w')

/-- A run does what its script does. -/
theorem main_eq (hRepeats : 0 ≤ args.repeats ∧ args.repeats ≤ 11) (w : World) :
    main host true args fuel w =
      some ((((mainCalls args).find? (mainScript host args).fails).map mainExit).getD .success,
        ((mainScript host args).run (mainCalls args) w).2) := by
  rw [main_eq_block hMax hFuel hRepeats, main_follows w, Script.run_exit, ended]

end

/-! ## The file -/

/-- Nobody removes a device. -/
def World.Kept (notDevice before : Bool) (w : World) : Prop := notDevice = false → w.file = before

section

variable {notDevice before : Bool} {w : World}

theorem World.Kept.unlinked (hKept : w.Kept notDevice before) :
    (w.unlinked notDevice).file = (!notDevice && before) := by
  cases notDevice with
  | true => exact Bool.and_false _
  | false => exact (Bool.and_true _).trans (hKept rfl)

theorem World.Kept.opened (hKept : w.Kept notDevice before) (fd : Fd) :
    ((w.unlinked notDevice).opened notDevice fd).file = (notDevice || before) := by
  cases notDevice with
  | true => exact Bool.or_true _
  | false => exact (Bool.or_false _).trans hKept.unlinked

theorem World.kept_of_file (hFile : w.file = (notDevice || before)) :
    w.Kept notDevice before := by
  rintro rfl
  exact hFile

end

/-- What the two scripts do to the file. -/
structure FileScript (notDevice : Bool) (S : Script Call World) : Prop where
  create (j : ℕ) (w : World) :
    (S.ok (.openWrite j) w).file = ((w.unlinked notDevice).opened notDevice (.writing j)).file
  noCreate (j : ℕ) (w : World) : (S.bail (.openWrite j) w).file = (w.unlinked notDevice).file
  finish (w : World) : (S.ok .finish w).file = (w.unlinked notDevice).file
  finishes : S.fails .finish = false
  ok (c : Call) (w : World) :
    (∀ j, c ≠ .openWrite j) → c ≠ .finish → (S.ok c w).file = w.file
  bail (c : Call) (w : World) : (∀ j, c ≠ .openWrite j) → (S.bail c w).file = w.file

section

variable {drop : Drop} {env : Env} {params : Params}

variable (drop env) in
/-- A script whose calls do to the file what those of both scripts do. -/
theorem FileScript.of_common {S : Script Call World} (hFinishes : S.fails .finish = false)
    (hOk : ∀ c w, (S.ok c w).file = (succeed drop env params c w).file)
    (hBail : ∀ c w, (S.bail c w).file = (Benchmark.bail drop params c w).file) :
    FileScript params.notDevice S where
  create j w := hOk (.openWrite j) w
  noCreate j w := hBail (.openWrite j) w
  finish w := hOk .finish w
  finishes := hFinishes
  ok c w hCreate hFinish := by
    rw [hOk]
    cases c with
    | openWrite j => exact absurd rfl (hCreate j)
    | finish => exact absurd rfl hFinish
    | openRead j => exact Bool.or_false _
    | _ => rfl
  bail c w hCreate := by
    rw [hBail]
    cases c with
    | openWrite j => exact absurd rfl (hCreate j)
    | _ => rfl

theorem writeScript_file : FileScript params.notDevice (writeScript drop env params) :=
  .of_common drop env rfl (fun c _ => by cases c <;> rfl) fun c _ => by cases c <;> rfl

theorem readScript_file : FileScript params.notDevice (readScript drop env params) :=
  .of_common drop env rfl (fun _ _ => rfl) fun _ _ => rfl

end

section

variable {notDevice before : Bool} {S : Script Call World} (hScript : FileScript notDevice S)

include hScript

theorem ok_kept {w : World} (hKept : w.Kept notDevice before) (c : Call) :
    (S.ok c w).Kept notDevice before := by
  by_cases hCreate : ∃ j, c = .openWrite j
  · obtain ⟨j, rfl⟩ := hCreate
    exact World.kept_of_file ((hScript.create j w).trans (hKept.opened _))
  · by_cases hFinish : c = .finish
    · rw [hFinish]
      rintro rfl
      exact (hScript.finish w).trans hKept.unlinked
    · intro hDevice
      rw [hScript.ok c w (not_exists.mp hCreate) hFinish]
      exact hKept hDevice

theorem bail_kept {w : World} (hKept : w.Kept notDevice before) (c : Call) :
    (S.bail c w).Kept notDevice before := by
  by_cases hCreate : ∃ j, c = .openWrite j
  · obtain ⟨j, rfl⟩ := hCreate
    rintro rfl
    exact (hScript.noCreate j w).trans hKept.unlinked
  · intro hDevice
    rw [hScript.bail c w (not_exists.mp hCreate)]
    exact hKept hDevice

end

theorem rowScript_file (p : Phase) (k : ℕ) :
    FileScript (isNotDevice args.filename) (rowScript host args p k) := by
  show FileScript (args.rowParams k).notDevice _
  cases p with
  | write => exact writeScript_file
  | read => exact readScript_file

variable (host args) in
/-- When SIGINT comes behind any of the calls, no file is left, and a device as it was. -/
theorem interrupted_file (calls : List MainCall) (w : World) :
    (handler args ((mainScript host args).run calls w).2).2.file =
      (!isNotDevice args.filename && w.file) := by
  have hKeep : (mainScript host args).Triple
      (fun _ => World.Kept (isNotDevice args.filename) w.file)
      (World.Kept (isNotDevice args.filename) w.file) calls
      (World.Kept (isNotDevice args.filename) w.file) := by
    refine .keep ?_ ?_
    · intro c _ w' hKept _
      exact bail_kept (rowScript_file c.phase c.row) hKept c.call
    · intro c _ w' hKept
      exact ok_kept (rowScript_file c.phase c.row) hKept c.call
  apply World.Kept.unlinked
  cases hExit : calls.find? (mainScript host args).fails with
  | none => exact hKeep.of_none (fun _ => rfl) hExit
  | some c => exact hKeep.of_some (fun _ => rfl) hExit

section

variable (args) (existed : Bool)

end

variable {existed : Bool}

end

end DebugCode.Benchmark
