import DebugCode.Lib.CInt
import DebugCode.Lib.CString
import DebugCode.Lib.Script

/-!
# The two functions of the flash benchmark

`benchmark_write_large_file` and `benchmark_read_large_file`, with every call that may fail
given by an environment, and `drop_caches` by a parameter.

* `benchmarkWriteLargeFile_follows`, `benchmarkReadLargeFile_follows`: each follows the script
  of its calls, so that it stops at the first one that fails.
-/

namespace DebugCode.Benchmark

open Lib

/-! ## The state of a run -/

/-- The descriptors of pass `j`: the one it writes the file with, and the one it reads it with. -/
inductive Fd
  | writing (j : Nat)
  | reading (j : Nat)
  deriving DecidableEq

/-- What the caches and the timed passes see of a run. -/
inductive Event
  | dataWritten (j : Nat)
  | setting (file value : String) (written : Bool)
  | timedPass (j : Nat)
  deriving DecidableEq

/-- The descriptors a function has opened and not closed, whether its buffer is allocated,
whether the file it created exists, the bytes moved in each timed pass, and what happened, the
newest event first. -/
structure World where
  fds : List Fd
  buffer : Bool
  file : Bool
  moved : Nat → Int
  log : List Event

namespace World

def start : World := ⟨[], false, false, fun _ => 0, []⟩

def allocated (w : World) : World := { w with buffer := true }

def freed (w : World) : World := { w with buffer := false }

/-- `open`, which creates the file when the flags have `O_CREAT`. -/
def opened (creat : Bool) (fd : Fd) (w : World) : World :=
  { w with fds := fd :: w.fds, file := w.file || creat }

def closed (fd : Fd) (w : World) : World := { w with fds := w.fds.erase fd }

/-- `if (not_device) unlink(filename);` -/
def unlinked (notDevice : Bool) (w : World) : World := { w with file := w.file && !notDevice }

def logged (es : List Event) (w : World) : World := { w with log := es ++ w.log }

/-- `gettimeofday(&t1, NULL)`, the start of timed pass `j`. -/
def timed (j : Nat) (w : World) : World :=
  { w with moved := Function.update w.moved j 0, log := .timedPass j :: w.log }

def transferred (j : Nat) (n : Int) (w : World) : World :=
  { w with moved := Function.update w.moved j (w.moved j + n) }

end World

/-- The calls of `drop_caches` in a run. -/
inductive DropPoint
  | first
  | beforePass (j : Nat)
  | afterPass (j : Nat)
  | last
  deriving DecidableEq

/-- What `drop_caches` returns at each of its calls, and the settings it has written or tried
to, the newest first. -/
abbrev Drop : Type := DropPoint → Int × List Event

/-- A `drop_caches` that succeeds without settings. -/
def noDrop : Drop := fun _ => (0, [])

/-- The outcomes of the other calls: `malloc`, and in pass `j` the `open` for writing, the `i`th
`write`, the `open` for reading and the `i`th `read`. -/
structure Env where
  malloc : Bool
  openWrite : Nat → Bool
  write : Nat → Nat → Int
  openRead : Nat → Bool
  read : Nat → Nat → Int

structure Params where
  filename : CString
  size : Int
  blocksize : Int
  repeats : Nat

/-- `is_not_device` -/
def isNotDevice (filename : CString) : Bool := strncmp filename (CString.literal "/dev/") 5 != 0

def Params.notDevice (params : Params) : Bool := isNotDevice params.filename

/-- How a function ends: it returns, or a division traps. -/
inductive Exit
  | returned (code : Int)
  | sigfpe
  deriving DecidableEq

/-! ## Arithmetic -/

/-- Where `size / blocksize` traps. -/
def divTraps (size blocksize : Int) : Bool :=
  blocksize == 0 || (size == -2 ^ 63 && blocksize == -1)

/-- The rounds of `i = size / blocksize; while (i-- > 0)`; `i` is an `int`. -/
def blockCount (size blocksize : Int) : Nat := (toInt (size.tdiv blocksize)).toNat

/-! ## The functions -/

/-- `if (drop_caches() < 0) return -1;` -/
def dropOrReturn (drop : Drop) (p : DropPoint) : Prog Exit World :=
  Prog.block
    [ Prog.act (World.logged (drop p).2),
      Prog.when ((drop p).1 < 0) (Prog.stop (.returned (-1))) ]

def mallocOrReturn (env : Env) : Prog Exit World :=
  Prog.block
    [ Prog.when (!env.malloc) (Prog.stop (.returned (-1))),
      Prog.act World.allocated ]

/-- The creation of the test file in pass `j`. -/
def createOrReturn (env : Env) (notDevice : Bool) (j : Nat) : Prog Exit World :=
  Prog.block
    [ Prog.act (World.unlinked notDevice),
      Prog.when (!env.openWrite j)
        (Prog.block [Prog.act World.freed, Prog.stop (.returned (-1))]),
      Prog.act (World.opened notDevice (.writing j)) ]

def benchmarkWriteLargeFile (drop : Drop) (env : Env) (params : Params) : Prog Exit World :=
  Prog.block
    [ dropOrReturn drop .first,
      mallocOrReturn env,
      Prog.loop params.repeats fun j =>
        Prog.block
          [ createOrReturn env params.notDevice j,
            Prog.block
              [ Prog.when (divTraps params.size params.blocksize) (Prog.stop .sigfpe),
                Prog.act (World.timed j) ],
            Prog.loop (blockCount params.size params.blocksize) fun i =>
              Prog.block
                [ Prog.when (env.write j i < 0)
                    (Prog.block
                      [ Prog.act World.freed,
                        Prog.act (World.closed (.writing j)),
                        Prog.stop (.returned (-2)) ]),
                  Prog.act (World.transferred j (env.write j i)) ],
            Prog.act (World.closed (.writing j)) ],
      Prog.act fun w => (w.unlinked params.notDevice).freed,
      dropOrReturn drop .last ]

def benchmarkReadLargeFile (drop : Drop) (env : Env) (params : Params) : Prog Exit World :=
  Prog.block
    [ dropOrReturn drop .first,
      mallocOrReturn env,
      Prog.loop params.repeats fun j =>
        Prog.block
          [ createOrReturn env params.notDevice j,
            Prog.when (divTraps params.size params.size) (Prog.stop .sigfpe),
            Prog.loop (blockCount params.size params.size) fun i =>
              Prog.when (env.write j i < 0)
                (Prog.block [Prog.act World.freed, Prog.stop (.returned (-2))]),
            Prog.act fun w => (w.logged [.dataWritten j]).closed (.writing j),
            Prog.block
              [ Prog.when (!env.openRead j)
                  (Prog.block [Prog.act World.freed, Prog.stop (.returned (-1))]),
                Prog.act (World.opened false (.reading j)) ],
            dropOrReturn drop (.beforePass j),
            Prog.block
              [ Prog.when (divTraps params.size params.blocksize) (Prog.stop .sigfpe),
                Prog.act (World.timed j) ],
            Prog.loop (blockCount params.size params.blocksize) fun i =>
              Prog.block
                [ Prog.when (env.read j i < 0)
                    (Prog.block
                      [ Prog.act World.freed,
                        Prog.act (World.closed (.reading j)),
                        Prog.stop (.returned (-2)) ]),
                  Prog.act (World.transferred j (env.read j i)) ],
            Prog.act (World.closed (.reading j)),
            dropOrReturn drop (.afterPass j) ],
      Prog.act fun w => (w.unlinked params.notDevice).freed,
      dropOrReturn drop .last ]

/-- What a function does: a `return 0` is at its end. -/
def result (p : Prog Exit World) : Exit × World :=
  ((p World.start).1.getD (.returned 0), (p World.start).2)

/-! ## The scripts of the functions -/

/-- The calls of a run, and the divisions and the statements between them that a script has to
tell apart. -/
inductive Call
  | drop (p : DropPoint)
  | malloc
  | openWrite (j : Nat)
  | writeCount (j : Nat)
  | write (j i : Nat)
  | closeWrite (j : Nat)
  | openRead (j : Nat)
  | count (j : Nat)
  | read (j i : Nat)
  | closeRead (j : Nat)
  | finish
  deriving DecidableEq

/-- Which calls fail. -/
def fails (drop : Drop) (env : Env) (params : Params) : Call → Bool
  | .drop p => (drop p).1 < 0
  | .malloc => !env.malloc
  | .openWrite j => !env.openWrite j
  | .writeCount _ => divTraps params.size params.size
  | .write j i => env.write j i < 0
  | .closeWrite _ => false
  | .openRead j => !env.openRead j
  | .count _ => divTraps params.size params.blocksize
  | .read j i => env.read j i < 0
  | .closeRead _ => false
  | .finish => false

/-- How a function ends after the failure of a call. -/
def exit : Call → Exit
  | .drop _ => .returned (-1)
  | .malloc => .returned (-1)
  | .openWrite _ => .returned (-1)
  | .writeCount _ => .sigfpe
  | .write _ _ => .returned (-2)
  | .closeWrite _ => .sigfpe
  | .openRead _ => .returned (-1)
  | .count _ => .sigfpe
  | .read _ _ => .returned (-2)
  | .closeRead _ => .sigfpe
  | .finish => .sigfpe

section

variable (drop : Drop) (env : Env) (params : Params)

/-- What the two functions have in common. -/
def succeed : Call → World → World
  | .drop p => World.logged (drop p).2
  | .malloc => World.allocated
  | .openWrite j => fun w => (w.unlinked params.notDevice).opened params.notDevice (.writing j)
  | .writeCount _ => id
  | .write _ _ => id
  | .closeWrite j => fun w => (w.logged [.dataWritten j]).closed (.writing j)
  | .openRead j => World.opened false (.reading j)
  | .count j => World.timed j
  | .read j i => World.transferred j (env.read j i)
  | .closeRead j => World.closed (.reading j)
  | .finish => fun w => (w.unlinked params.notDevice).freed

def bail : Call → World → World
  | .drop p => World.logged (drop p).2
  | .openWrite _ => fun w => (w.unlinked params.notDevice).freed
  | .write _ _ => World.freed
  | .openRead _ => World.freed
  | .read j _ => fun w => w.freed.closed (.reading j)
  | _ => id

def writeScript : Script Call World where
  fails := fails drop env params
  ok
    | .write j i => World.transferred j (env.write j i)
    | .closeWrite j => World.closed (.writing j)
    | c => succeed drop env params c
  bail
    | .write j _ => fun w => w.freed.closed (.writing j)
    | c => bail drop params c

def readScript : Script Call World where
  fails := fails drop env params
  ok := succeed drop env params
  bail := bail drop params

/-- The calls of pass `j` of `benchmark_write_large_file`. -/
def writePass (j : Nat) : List Call :=
  .openWrite j :: .count j ::
    ((List.range (blockCount params.size params.blocksize)).map (.write j) ++ [.closeWrite j])

/-- The calls of `benchmark_write_large_file` when none fails. -/
def writeCalls : List Call :=
  .drop .first :: .malloc ::
    ((List.range params.repeats).flatMap (writePass params) ++ [.finish, .drop .last])

/-- The calls of pass `j` of `benchmark_read_large_file`. -/
def readPass (j : Nat) : List Call :=
  .openWrite j :: .writeCount j ::
    ((List.range (blockCount params.size params.size)).map (.write j) ++
      .closeWrite j :: .openRead j :: .drop (.beforePass j) :: .count j ::
        ((List.range (blockCount params.size params.blocksize)).map (.read j) ++
          [.closeRead j, .drop (.afterPass j)]))

/-- The calls of `benchmark_read_large_file` when none fails. -/
def readCalls : List Call :=
  .drop .first :: .malloc ::
    ((List.range params.repeats).flatMap (readPass params) ++ [.finish, .drop .last])

variable {drop env params}

/-! ### The functions follow their scripts -/

theorem dropOrReturn_follows {S : Script Call World} {p : DropPoint}
    (hFails : S.fails (.drop p) = decide ((drop p).1 < 0))
    (hOk : S.ok (.drop p) = World.logged (drop p).2)
    (hBail : S.bail (.drop p) = World.logged (drop p).2) :
    S.Follows exit [.drop p] (dropOrReturn drop p) := by
  refine .guard hFails (fun s => Prog.block_when _ _ _ _) ?_ ?_
  · intro s
    rw [hBail]
    rfl
  · intro s
    rw [hOk]
    rfl

theorem benchmarkWriteLargeFile_follows :
    (writeScript drop env params).Follows exit (writeCalls params)
      (benchmarkWriteLargeFile drop env params) := by
  refine .cons (dropOrReturn_follows rfl rfl rfl) <|
    .cons (.guard rfl (fun s => Prog.block_when _ _ _ _) (fun _ => rfl) fun _ => rfl) <|
    .append (.loop _ fun j => ?_) <|
    .cons (.act rfl fun _ => rfl) <| .cons (dropOrReturn_follows rfl rfl rfl) .nil
  refine .cons (.guard rfl (fun s => Prog.block_when _ _ _ _) (fun _ => rfl) fun _ => rfl) <|
    .cons (.guard rfl (fun s => Prog.block_when _ _ _ _) (fun _ => rfl) fun _ => rfl) <|
    .append (.loop_map _ fun i => ?_) <| .cons (.act rfl fun _ => rfl) .nil
  exact .guard rfl (fun s => Prog.block_when _ _ _ _) (fun _ => rfl) fun _ => rfl

theorem benchmarkReadLargeFile_follows :
    (readScript drop env params).Follows exit (readCalls params)
      (benchmarkReadLargeFile drop env params) := by
  refine .cons (dropOrReturn_follows rfl rfl rfl) <|
    .cons (.guard rfl (fun s => Prog.block_when _ _ _ _) (fun _ => rfl) fun _ => rfl) <|
    .append (.loop _ fun j => ?_) <|
    .cons (.act rfl fun _ => rfl) <| .cons (dropOrReturn_follows rfl rfl rfl) .nil
  refine .cons (.guard rfl (fun s => Prog.block_when _ _ _ _) (fun _ => rfl) fun _ => rfl) <|
    .cons (.guard rfl (fun s => Prog.when_apply _ _ _) (fun _ => rfl) fun _ => rfl) <|
    .append (.loop_map _ fun i => ?_) <| .cons (.act rfl fun _ => rfl) <|
    .cons (.guard rfl (fun s => Prog.block_when _ _ _ _) (fun _ => rfl) fun _ => rfl) <|
    .cons (dropOrReturn_follows rfl rfl rfl) <|
    .cons (.guard rfl (fun s => Prog.block_when _ _ _ _) (fun _ => rfl) fun _ => rfl) <|
    .append (.loop_map _ fun i => ?_) <| .cons (.act rfl fun _ => rfl) <|
    .cons (dropOrReturn_follows rfl rfl rfl) .nil
  · exact .guard rfl (fun s => Prog.when_apply _ _ _) (fun _ => rfl) fun _ => rfl
  · exact .guard rfl (fun s => Prog.block_when _ _ _ _) (fun _ => rfl) fun _ => rfl

end

end DebugCode.Benchmark
