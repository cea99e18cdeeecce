import DebugCode.Benchmark.Functions

/-!
# What the benchmark functions leave behind

Each return of the two functions has its own list of things to release. What is held before
each call is known, and so is what is left after its failure.

* `writeCalls_triple`, `readCalls_triple`: what is held along the two scripts.
* `released_iff`: everything is released exactly when no call fails, or the first one that
  fails has a complete list.
-/

namespace DebugCode.Benchmark

open Lib

/-- Every descriptor is closed, the buffer is freed, and the test file does not exist. -/
structure World.Released (notDevice : Bool) (w : World) : Prop where
  fds : w.fds = []
  buffer : w.buffer = false
  file : notDevice = true → w.file = false

/-- Whether everything is released after the failure of a call of
`benchmark_write_large_file`. -/
def writeReleases (notDevice : Bool) : Call → Bool
  | .write _ _ => !notDevice
  | _ => true

/-- Whether everything is released after the failure of a call of
`benchmark_read_large_file`. -/
def readReleases (notDevice : Bool) : Call → Bool
  | .write _ _ => false
  | .openRead _ => !notDevice
  | .drop (.beforePass _) => false
  | .read _ _ => !notDevice
  | .drop (.afterPass _) => false
  | _ => true

/-- The descriptors, the buffer and the file that are held. -/
structure World.Holds (fds : List Fd) (buffer file : Bool) (w : World) : Prop where
  fds : w.fds = fds
  buffer : w.buffer = buffer
  file : w.file = file

/-- What is held between two passes: the file of the last one may exist. -/
structure World.Between (notDevice : Bool) (w : World) : Prop where
  fds : w.fds = []
  buffer : w.buffer = true
  file : notDevice = false → w.file = false

section

variable {notDevice : Bool} {fds : List Fd} {buffer file : Bool} {w : World}

theorem World.Holds.between (hHolds : w.Holds [] true notDevice) : w.Between notDevice :=
  ⟨hHolds.fds, hHolds.buffer, fun hDevice => hHolds.file.trans hDevice⟩

theorem World.Between.created (hBetween : w.Between notDevice) (fd : Fd) :
    ((w.unlinked notDevice).opened notDevice fd).Holds [fd] true notDevice := by
  refine ⟨congrArg (fd :: ·) hBetween.fds, hBetween.buffer, ?_⟩
  show (w.file && !notDevice || notDevice) = notDevice
  cases notDevice with
  | true => simp
  | false => simp [hBetween.file rfl]

theorem World.Between.finished (hBetween : w.Between notDevice) :
    ((w.unlinked notDevice).freed).Holds [] false false := by
  refine ⟨hBetween.fds, rfl, ?_⟩
  show (w.file && !notDevice) = false
  cases notDevice with
  | true => simp
  | false => simp [hBetween.file rfl]

theorem World.Holds.closed {fd : Fd} (hHolds : w.Holds [fd] buffer file) :
    (w.closed fd).Holds [] buffer file := by
  refine ⟨?_, hHolds.buffer, hHolds.file⟩
  show w.fds.erase fd = []
  rw [hHolds.fds, List.erase_cons_head]

theorem World.Holds.freed (hHolds : w.Holds fds buffer file) : w.freed.Holds fds false file :=
  ⟨hHolds.fds, rfl, hHolds.file⟩

theorem World.Holds.logged (hHolds : w.Holds fds buffer file) (es : List Event) :
    (w.logged es).Holds fds buffer file := ⟨hHolds.fds, hHolds.buffer, hHolds.file⟩

theorem World.Holds.transferred (hHolds : w.Holds fds buffer file) (j : Nat) (n : Int) :
    (w.transferred j n).Holds fds buffer file := ⟨hHolds.fds, hHolds.buffer, hHolds.file⟩

theorem World.Holds.timed (hHolds : w.Holds fds buffer file) (j : Nat) :
    (w.timed j).Holds fds buffer file := ⟨hHolds.fds, hHolds.buffer, hHolds.file⟩

/-- What is held decides whether everything is released. -/
theorem World.Holds.released_when (hHolds : w.Holds fds buffer file) :
    w.Released notDevice ↔ fds = [] ∧ buffer = false ∧ (notDevice = true → file = false) := by
  rw [← hHolds.fds, ← hHolds.buffer, ← hHolds.file]
  exact ⟨fun h => ⟨h.fds, h.buffer, h.file⟩, fun h => ⟨h.1, h.2.1, h.2.2⟩⟩

end

/-! ## Along the scripts -/

/-- The list of things released after the failure of a call is complete or not. -/
def Leaves (notDevice : Bool) (releases : Call → Bool) (c : Call) (w : World) : Prop :=
  ∀ code, exit c = .returned code → (w.Released notDevice ↔ releases c = true)

/-- What is held after the failure of a call decides whether its list is complete. -/
theorem Leaves.of_holds {notDevice : Bool} {releases : Call → Bool} {c : Call} {w : World}
    {fds : List Fd} {buffer file : Bool} (hHolds : w.Holds fds buffer file)
    (hReleases : releases c = true ↔
      fds = [] ∧ buffer = false ∧ (notDevice = true → file = false)) :
    Leaves notDevice releases c w :=
  fun _ _ => hHolds.released_when.trans hReleases.symm

/-- The failure of a call after which nothing is held. -/
theorem Leaves.of_nothing {notDevice : Bool} {releases : Call → Bool} {c : Call} {w : World}
    (hHolds : w.Holds [] false false) (hReleases : releases c = true) :
    Leaves notDevice releases c w :=
  .of_holds hHolds (iff_of_true hReleases ⟨rfl, rfl, fun _ => rfl⟩)

section

variable {drop : Drop} {env : Env} {params : Params}

/-- The first two calls of both functions. -/
theorem opening_triple {S : Script Call World} {releases : Call → Bool}
    (hDrop : S.ok (.drop .first) = World.logged (drop .first).2)
    (hNoDrop : S.bail (.drop .first) = World.logged (drop .first).2)
    (hMalloc : S.ok .malloc = World.allocated) (hNoMalloc : S.bail .malloc = id)
    (hFirst : releases (.drop .first) = true) (hSecond : releases .malloc = true) :
    S.Triple (Leaves params.notDevice releases) (World.Holds [] false false)
      [.drop .first, .malloc] (World.Between params.notDevice) := by
  refine .cons (J := World.Holds [] false false) ?_ ?_ <| .cons ?_ ?_ (.nil fun _ h => h)
  · intro w hHolds _
    rw [hNoDrop]
    exact .of_nothing (hHolds.logged _) hFirst
  · intro w hHolds _
    rw [hDrop]
    exact hHolds.logged _
  · intro w hHolds _
    rw [hNoMalloc]
    exact .of_nothing hHolds hSecond
  · intro w hHolds _
    rw [hMalloc]
    exact ⟨hHolds.fds, rfl, fun _ => hHolds.file⟩

/-- The last two calls of both functions. -/
theorem closing_triple {S : Script Call World} {releases : Call → Bool}
    (hFinish : S.ok .finish = fun w => (w.unlinked params.notDevice).freed)
    (hDrop : S.ok (.drop .last) = World.logged (drop .last).2)
    (hNoDrop : S.bail (.drop .last) = World.logged (drop .last).2)
    (hLast : releases (.drop .last) = true) :
    S.Triple (Leaves params.notDevice releases) (World.Between params.notDevice)
      [.finish, .drop .last] (World.Released params.notDevice) := by
  refine .cons (J := World.Holds [] false false) ?_ ?_ <| .cons ?_ ?_ (.nil fun _ h => h)
  · rintro w - - code ⟨⟩
  · intro w hBetween _
    rw [hFinish]
    exact hBetween.finished
  · intro w hHolds _
    rw [hNoDrop]
    exact .of_nothing (hHolds.logged _) hLast
  · intro w hHolds _
    rw [hDrop, (hHolds.logged _).released_when]
    simp

theorem writePass_triple (j : Nat) :
    (writeScript drop env params).Triple (Leaves params.notDevice (writeReleases params.notDevice))
      (World.Between params.notDevice) (writePass params j) (World.Between params.notDevice) := by
  refine .cons (J := World.Holds [.writing j] true params.notDevice) ?_ ?_ <|
    .cons (J := World.Holds [.writing j] true params.notDevice) ?_ ?_ <|
    .append (.loop_map (I := fun _ => World.Holds [.writing j] true params.notDevice) ?_ ?_) <|
    .cons ?_ ?_ (.nil fun _ h => h)
  · intro w hBetween _
    exact .of_nothing hBetween.finished rfl
  · intro w hBetween _
    exact hBetween.created _
  · rintro w - - code ⟨⟩
  · intro w hHolds _
    exact hHolds.timed j
  · intro i _ w hHolds _
    exact .of_holds hHolds.freed.closed (by simp [writeReleases])
  · intro i _ w hHolds _
    exact hHolds.transferred j _
  · rintro w - - code ⟨⟩
  · intro w hHolds _
    exact hHolds.closed.between

theorem writeCalls_triple :
    (writeScript drop env params).Triple (Leaves params.notDevice (writeReleases params.notDevice))
      (World.Holds [] false false) (writeCalls params) (World.Released params.notDevice) :=
  (opening_triple rfl rfl rfl rfl rfl rfl).append <|
    .append (.loop (I := fun _ => World.Between params.notDevice) fun j _ => writePass_triple j)
      (closing_triple rfl rfl rfl rfl)

theorem readPass_triple (j : Nat) :
    (readScript drop env params).Triple (Leaves params.notDevice (readReleases params.notDevice))
      (World.Between params.notDevice) (readPass params j) (World.Between params.notDevice) := by
  refine .cons (J := World.Holds [.writing j] true params.notDevice) ?_ ?_ <|
    .cons (J := World.Holds [.writing j] true params.notDevice) ?_ ?_ <|
    .append (.loop_map (I := fun _ => World.Holds [.writing j] true params.notDevice) ?_ ?_) <|
    .cons (J := World.Holds [] true params.notDevice) ?_ ?_ <|
    .cons (J := World.Holds [.reading j] true params.notDevice) ?_ ?_ <|
    .cons (J := World.Holds [.reading j] true params.notDevice) ?_ ?_ <|
    .cons (J := World.Holds [.reading j] true params.notDevice) ?_ ?_ <|
    .append (.loop_map (I := fun _ => World.Holds [.reading j] true params.notDevice) ?_ ?_) <|
    .cons (J := World.Holds [] true params.notDevice) ?_ ?_ <|
    .cons ?_ ?_ (.nil fun _ h => h)
  · intro w hBetween _
    exact .of_nothing hBetween.finished rfl
  · intro w hBetween _
    exact hBetween.created _
  · rintro w - - code ⟨⟩
  · intro w hHolds _
    exact hHolds
  · intro i _ w hHolds _
    exact .of_holds hHolds.freed (by simp [readReleases])
  · intro i _ w hHolds _
    exact hHolds
  · rintro w - - code ⟨⟩
  · intro w hHolds _
    exact (hHolds.logged _).closed
  · intro w hHolds _
    exact .of_holds hHolds.freed (by simp [readReleases])
  · intro w hHolds _
    exact ⟨congrArg (fun fds => Fd.reading j :: fds) hHolds.fds, hHolds.buffer,
      (Bool.or_false _).trans hHolds.file⟩
  · intro w hHolds _
    exact .of_holds (hHolds.logged _) (by simp [readReleases])
  · intro w hHolds _
    exact hHolds.logged _
  · rintro w - - code ⟨⟩
  · intro w hHolds _
    exact hHolds.timed j
  · intro i _ w hHolds _
    exact .of_holds hHolds.freed.closed (by simp [readReleases])
  · intro i _ w hHolds _
    exact hHolds.transferred j _
  · rintro w - - code ⟨⟩
  · intro w hHolds _
    exact hHolds.closed
  · intro w hHolds _
    exact .of_holds (hHolds.logged _) (by simp [readReleases])
  · intro w hHolds _
    exact (hHolds.logged _).between

theorem readCalls_triple :
    (readScript drop env params).Triple (Leaves params.notDevice (readReleases params.notDevice))
      (World.Holds [] false false) (readCalls params) (World.Released params.notDevice) :=
  (opening_triple rfl rfl rfl rfl rfl rfl).append <|
    .append (.loop (I := fun _ => World.Between params.notDevice) fun j _ => readPass_triple j)
      (closing_triple rfl rfl rfl rfl)

/-! ## What is left at a return -/

/-- A function that follows a script leaves what its calls leave. -/
theorem released_of_follows {S : Script Call World} {p : Prog Exit World} {cs : List Call}
    {releases : Call → Bool} (hFollows : S.Follows exit cs p)
    (hTriple : S.Triple (Leaves params.notDevice releases) (World.Holds [] false false) cs
      (World.Released params.notDevice))
    {code : Int} {w : World} (hReturn : result p = (.returned code, w)) :
    w.Released params.notDevice ↔ ∀ c, cs.find? S.fails = some c → releases c = true := by
  have hStart : World.start.Holds [] false false := ⟨rfl, rfl, rfl⟩
  rw [result, hFollows, Script.run_exit] at hReturn
  obtain ⟨hCode, rfl⟩ := Prod.mk.inj hReturn
  cases hExit : cs.find? S.fails with
  | none =>
    refine iff_of_true (hTriple.of_none hStart hExit) ?_
    intro c hNone
    cases hNone
  | some c =>
    rw [hExit] at hCode
    have hLeaves := hTriple.of_some hStart hExit code hCode
    simpa using hLeaves

end

/-- Everything is released, whatever a function returns, exactly when no call fails, or the
first one that fails is followed by a complete list of releases. -/
theorem released_iff (drop : Drop) (env : Env) (params : Params) (code : Int) (w : World) :
    (result (benchmarkWriteLargeFile drop env params) = (.returned code, w) →
      (w.Released params.notDevice ↔
        ∀ c, (writeCalls params).find? (fails drop env params) = some c →
          writeReleases params.notDevice c = true)) ∧
    (result (benchmarkReadLargeFile drop env params) = (.returned code, w) →
      (w.Released params.notDevice ↔
        ∀ c, (readCalls params).find? (fails drop env params) = some c →
          readReleases params.notDevice c = true)) :=
  ⟨released_of_follows benchmarkWriteLargeFile_follows writeCalls_triple,
    released_of_follows benchmarkReadLargeFile_follows readCalls_triple⟩

/-- A disk that is full: the first `write` fails. -/
def diskFull : Env where
  malloc := true
  openWrite _ := true
  write _ _ := -1
  openRead _ := true
  read _ _ := 0

def oneMeg : Params := ⟨CString.literal "rawdata.dat", 2 ^ 20, 2 ^ 20, 1⟩

theorem released_iff_diskFull :
    (∃ w, result (benchmarkWriteLargeFile noDrop diskFull oneMeg) =
        (.returned (-2), w) ∧
      (w.Released oneMeg.notDevice ↔
        ∀ c, (writeCalls oneMeg).find? (fails noDrop diskFull oneMeg) = some c →
          writeReleases oneMeg.notDevice c = true)) ∧
    ∃ w, result (benchmarkReadLargeFile noDrop diskFull oneMeg) =
        (.returned (-2), w) ∧
      (w.Released oneMeg.notDevice ↔
        ∀ c, (readCalls oneMeg).find? (fails noDrop diskFull oneMeg) = some c →
          readReleases oneMeg.notDevice c = true) :=
  ⟨⟨_, rfl, (released_iff _ _ _ _ _).1 rfl⟩, ⟨_, rfl, (released_iff _ _ _ _ _).2 rfl⟩⟩

/-- `benchmark_read_large_file` on a full disk, whose caches can be dropped. -/
theorem released_diskFull : ∃ w,
    result (benchmarkReadLargeFile noDrop diskFull oneMeg) = (.returned (-2), w) ∧
      w.fds = [.writing 0] ∧ w.file = true ∧ ¬ w.Released oneMeg.notDevice := by
  refine ⟨_, rfl, rfl, rfl, fun hReleased => ?_⟩
  exact List.cons_ne_nil _ _ hReleased.fds

end DebugCode.Benchmark
