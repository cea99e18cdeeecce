import Mathlib.Data.List.Basic
import Mathlib.Data.List.TakeWhile

/-!
# The load children of hz-test and latency-test

`cpu_consume_start` fills a zeroed table with the pids of the children, up to the first
`fork` that fails, and `cpu_consume_kill` goes through the table. The two programs are
copies of each other, but the guard of the second loop is `!cpu_pids[i]` in hz-test and
`cpu_pids[i]` in latency-test.

* `cpuConsumeStart_table`: the table is the pids of the children, then zeros.
* `cpuConsumeKill_latencyTest`, `cpuConsumeKill_hzTest`: what each guard asks of the kernel.
* `stopsChildren_iff`: exactly the children are stopped in latency-test, on every sequence
  of forks, and in hz-test on none.
-/

namespace DebugCode.CpuLoad

/-- `MAX_TASKS` -/
def maxTasks : Nat := 64

/-- What a successful `fork` returns to the parent. -/
structure ChildPid where
  val : Int
  hPos : 0 < val
  deriving DecidableEq

/-- The outcomes of `fork` in the parent. -/
inductive ForkResult
  | child (pid : ChildPid)
  | failed
  deriving DecidableEq

namespace ForkResult

/-- The `pid_t` that `fork` returns. -/
def pid : ForkResult → Int
  | child p => p.val
  | failed => -1

def isChild : ForkResult → Bool
  | child _ => true
  | failed => false

@[simp] theorem pid_child (p : ChildPid) : (child p).pid = p.val := rfl

@[simp] theorem isChild_child (p : ChildPid) : (child p).isChild = true := rfl

@[simp] theorem isChild_failed : failed.isChild = false := rfl

end ForkResult

/-- The two programs. -/
inductive Program
  | hzTest
  | latencyTest
  deriving DecidableEq

/-- What `cpu_consume_kill` asks of the kernel. -/
inductive Call
  | kill (pid : Int)
  | waitid (pid : Int)
  deriving DecidableEq

/-- The process that runs `cpu_consume_kill`: which program it is, and whether a SIGUSR1 ends
it. Only the children install a handler for SIGUSR1, so the parent has the disposition it was
started with; the default one ends it. -/
structure Config where
  program : Program
  usr1Ends : Bool

/-- The guard in the loop of `cpu_consume_kill`. -/
def Program.selects : Program → Int → Bool
  | hzTest, pid => pid == 0
  | latencyTest, pid => pid != 0

/-- `kill(pid, SIGUSR1)` ends the caller: pid 0 is the caller's own process group. -/
def Config.endedBy (P : Config) (pid : Int) : Bool := pid == 0 && P.usr1Ends

/-! ## The two functions -/

/-- The loop of `cpu_consume_kill`: the calls made, and whether the caller is still running. -/
def killLoop (P : Config) : List Int → List Call × Bool
  | [] => ([], true)
  | pid :: pids =>
    if P.program.selects pid then
      if P.endedBy pid then ([.kill pid], false)
      else
        let rest := killLoop P pids
        (.kill pid :: .waitid pid :: rest.1, rest.2)
    else killLoop P pids

/-- `cpu_consume_kill` of hz-test -/
def HzTest.cpuConsumeKill (usr1Ends : Bool) (cpuPids : List Int) : List Call × Bool :=
  killLoop ⟨.hzTest, usr1Ends⟩ cpuPids

/-- `cpu_consume_kill` of latency-test -/
def LatencyTest.cpuConsumeKill (usr1Ends : Bool) (cpuPids : List Int) : List Call × Bool :=
  killLoop ⟨.latencyTest, usr1Ends⟩ cpuPids

def Config.cpuConsumeKill (P : Config) (cpuPids : List Int) : List Call × Bool :=
  match P.program with
  | .hzTest => HzTest.cpuConsumeKill P.usr1Ends cpuPids
  | .latencyTest => LatencyTest.cpuConsumeKill P.usr1Ends cpuPids

/-- The loop of `cpu_consume_start` from task `i` on, with `n` tasks to go: the table, and
whether every `fork` succeeded. -/
def startLoop (forks : Nat → ForkResult) (cpuPids : List Int) (i : Nat) : Nat → List Int × Bool
  | 0 => (cpuPids, true)
  | n + 1 =>
    match forks i with
    | .failed => (cpuPids, false)
    | .child pid => startLoop forks (cpuPids.set i pid.val) (i + 1) n

/-- `cpu_consume_start` after a successful `calloc`: the table at its end, or at its call of
`cpu_consume_complete` when a `fork` failed. -/
def cpuConsumeStart (forks : Nat → ForkResult) : List Int × Bool :=
  startLoop forks (List.replicate maxTasks 0) 0 maxTasks

/-! ## The table -/

/-- The children forked by `n` calls of `fork` from the `i`th on, up to the first failure. -/
def childrenFrom (forks : Nat → ForkResult) (i n : Nat) : List Int :=
  (((List.range' i n).map forks).takeWhile ForkResult.isChild).map ForkResult.pid

/-- The children of a run. -/
def children (forks : Nat → ForkResult) : List Int := childrenFrom forks 0 maxTasks

section

variable {forks : Nat → ForkResult} {i : Nat}

theorem childrenFrom_failed (hFork : forks i = .failed) (n : Nat) :
    childrenFrom forks i (n + 1) = [] := by
  simp [childrenFrom, List.range'_succ, hFork]

theorem childrenFrom_child {pid : ChildPid} (hFork : forks i = .child pid) (n : Nat) :
    childrenFrom forks i (n + 1) = pid.val :: childrenFrom forks (i + 1) n := by
  simp [childrenFrom, List.range'_succ, hFork, List.takeWhile_cons]

end

theorem children_pos {forks : Nat → ForkResult} {pid : Int} (hMem : pid ∈ children forks) :
    0 < pid := by
  obtain ⟨r, hr, rfl⟩ := List.mem_map.mp hMem
  have hChild := List.mem_takeWhile_imp hr
  cases r with
  | child p => exact p.hPos
  | failed => cases hChild

/-- Storing the pid of the next task. -/
theorem set_next (started : List Int) (n : Nat) (pid : Int) :
    (started ++ List.replicate (n + 1) 0).set started.length pid =
      (started ++ [pid]) ++ List.replicate n 0 := by
  rw [List.set_append_right _ _ (Nat.le_refl _), Nat.sub_self, List.replicate_succ,
    List.set_cons_zero, List.append_assoc, List.singleton_append]

/-- The loop fills the zeros behind the tasks started so far. -/
theorem startLoop_table (forks : Nat → ForkResult) (started : List Int) (n : Nat) :
    (startLoop forks (started ++ List.replicate n 0) started.length n).1 =
      started ++ childrenFrom forks started.length n ++
        List.replicate (n - (childrenFrom forks started.length n).length) 0 := by
  induction n generalizing started with
  | zero => simp [startLoop, childrenFrom]
  | succ n ih =>
    rw [startLoop]
    cases hFork : forks started.length with
    | failed => simp [childrenFrom_failed hFork]
    | child pid =>
      have hLength : started.length + 1 = (started ++ [pid.val]).length := by simp
      simp only [set_next, childrenFrom_child hFork, List.length_cons]
      rw [hLength, ih]
      simp

theorem startLoop_length (forks : Nat → ForkResult) (pids : List Int) (i n : Nat) :
    (startLoop forks pids i n).1.length = pids.length := by
  induction n generalizing pids i with
  | zero => rfl
  | succ n ih =>
    rw [startLoop]
    cases forks i with
    | failed => rfl
    | child pid => rw [ih, List.length_set]

/-- The table is the pids of the children, then zeros. -/
theorem cpuConsumeStart_table (forks : Nat → ForkResult) :
    (cpuConsumeStart forks).1 =
      children forks ++ List.replicate (maxTasks - (children forks).length) 0 := by
  have hTable := startLoop_table forks [] maxTasks
  rw [cpuConsumeStart, children]
  simpa only [List.nil_append, List.length_nil] using hTable

/-! ## The calls -/

/-- The pids that are sent SIGUSR1. -/
def signalled (calls : List Call) : List Int :=
  calls.filterMap fun
    | .kill pid => some pid
    | .waitid _ => none

/-- The pids that are waited for. -/
def waited (calls : List Call) : List Int :=
  calls.filterMap fun
    | .kill _ => none
    | .waitid pid => some pid

/-- Signalling and then waiting for each of some pids. -/
def stopEach (pids : List Int) : List Call := pids.flatMap fun pid => [.kill pid, .waitid pid]

@[simp] theorem signalled_stopEach (pids : List Int) : signalled (stopEach pids) = pids := by
  induction pids with
  | nil => rfl
  | cons pid pids ih => exact congrArg (pid :: ·) ih

@[simp] theorem waited_stopEach (pids : List Int) : waited (stopEach pids) = pids := by
  induction pids with
  | nil => rfl
  | cons pid pids ih => exact congrArg (pid :: ·) ih

/-- latency-test stops the nonzero slots of the table, whatever they hold. -/
theorem killLoop_latencyTest (usr1Ends : Bool) (cpuPids : List Int) :
    killLoop ⟨.latencyTest, usr1Ends⟩ cpuPids = (stopEach (cpuPids.filter (· != 0)), true) := by
  induction cpuPids with
  | nil => rfl
  | cons pid pids ih =>
    by_cases hZero : pid = 0
    · simp [killLoop, Program.selects, hZero, ih]
    · simp [killLoop, Program.selects, Config.endedBy, hZero, ih, stopEach]

/-- hz-test skips the slots that are not zero. -/
theorem killLoop_hzTest_nonzero (usr1Ends : Bool) {pids : List Int} (hPids : ∀ p ∈ pids, p ≠ 0)
    (rest : List Int) :
    killLoop ⟨.hzTest, usr1Ends⟩ (pids ++ rest) = killLoop ⟨.hzTest, usr1Ends⟩ rest := by
  induction pids with
  | nil => rfl
  | cons pid pids ih =>
    have hZero : pid ≠ 0 := hPids pid (by simp)
    have hTail : ∀ p ∈ pids, p ≠ 0 := fun p hp => hPids p (by simp [hp])
    rw [List.cons_append, killLoop]
    simp [Program.selects, hZero, ih hTail]

/-- One call of `cpu_consume_kill` in latency-test. -/
theorem cpuConsumeKill_latencyTest (usr1Ends : Bool) (forks : Nat → ForkResult) :
    LatencyTest.cpuConsumeKill usr1Ends (cpuConsumeStart forks).1 =
      (stopEach (children forks), true) := by
  have hKeep : (children forks).filter (· != 0) = children forks := by
    rw [List.filter_eq_self]
    intro pid hMem
    have hPos := children_pos hMem
    simp only [bne_iff_ne, ne_eq]
    omega
  rw [LatencyTest.cpuConsumeKill, killLoop_latencyTest, cpuConsumeStart_table,
    List.filter_append, hKeep]
  simp

/-- One call of `cpu_consume_kill` in hz-test goes to the empty slots. -/
theorem cpuConsumeKill_hzTest (usr1Ends : Bool) (forks : Nat → ForkResult) :
    HzTest.cpuConsumeKill usr1Ends (cpuConsumeStart forks).1 =
      killLoop ⟨.hzTest, usr1Ends⟩
        (List.replicate (maxTasks - (children forks).length) 0) := by
  rw [HzTest.cpuConsumeKill, cpuConsumeStart_table]
  apply killLoop_hzTest_nonzero
  intro pid hMem
  have hPos := children_pos hMem
  omega

/-- With an empty slot, the caller's own process group is signalled. -/
theorem zero_mem_signalled (usr1Ends : Bool) (n : Nat) :
    0 ∈ signalled (killLoop ⟨.hzTest, usr1Ends⟩ (List.replicate (n + 1) 0)).1 := by
  rw [List.replicate_succ, killLoop]
  cases usr1Ends <;> simp [Program.selects, Config.endedBy, signalled]

/-! ## What is stopped -/

/-- One call of `cpu_consume_kill` after the forks sends SIGUSR1 to, and waits for, exactly
the children, each once. -/
def StopsChildren (P : Config) (forks : Nat → ForkResult) : Prop :=
  let calls := (P.cpuConsumeKill (cpuConsumeStart forks).1).1
  (signalled calls).Perm (children forks) ∧ (waited calls).Perm (children forks)

/-- hz-test either has 64 children and signals none, or an empty slot and signals pid 0. -/
theorem not_stopsChildren_hzTest (usr1Ends : Bool) (forks : Nat → ForkResult) :
    ¬ StopsChildren ⟨.hzTest, usr1Ends⟩ forks := by
  rintro ⟨hSignalled, -⟩
  change (signalled (HzTest.cpuConsumeKill usr1Ends (cpuConsumeStart forks).1).1).Perm _
    at hSignalled
  rw [cpuConsumeKill_hzTest] at hSignalled
  cases hEmpty : maxTasks - (children forks).length with
  | zero =>
    rw [hEmpty] at hSignalled
    have hNone : (children forks).length = 0 := hSignalled.length_eq.symm
    rw [hNone] at hEmpty
    cases hEmpty
  | succ n =>
    rw [hEmpty] at hSignalled
    have hZero := children_pos (hSignalled.mem_iff.mp (zero_mem_signalled usr1Ends n))
    omega

/-- The children of latency-test are stopped and nothing else is, for every sequence of
forks; in hz-test that is so for none. -/
theorem stopsChildren_iff (P : Config) (forks : Nat → ForkResult) :
    StopsChildren P forks ↔ P.program = .latencyTest := by
  obtain ⟨program, usr1Ends⟩ := P
  cases program with
  | hzTest => simpa using not_stopsChildren_hzTest usr1Ends forks
  | latencyTest =>
    refine iff_of_true ?_ rfl
    show (signalled (LatencyTest.cpuConsumeKill usr1Ends _).1).Perm _ ∧
      (waited (LatencyTest.cpuConsumeKill usr1Ends _).1).Perm _
    rw [cpuConsumeKill_latencyTest]
    simp

/-- The forks of a run in which only the first one succeeds, with pid 1000. -/
def oneChild (i : Nat) : ForkResult := if i = 0 then .child ⟨1000, by decide⟩ else .failed

/-- hz-test with one child signals its own process group instead. -/
theorem stopsChildren_hzTest_oneChild : ¬ StopsChildren ⟨.hzTest, true⟩ oneChild := by
  show ¬ ([0].Perm [1000] ∧ [].Perm [1000])
  decide

end DebugCode.CpuLoad
