import DebugCode.CpuLoad.Children
import Mathlib.Logic.Function.Iterate

/-!
# The children of cpu-hog

`main` stores whatever `fork` returns, and `reap`, run by the handler of SIGINT, sends SIGKILL
to every slot that is not zero. So a `fork` that failed leaves -1 for `kill`, which is every
process on the system.

* `handler_iterate`: however many SIGINTs are delivered, the slots are reaped once.
* `signalled_hog`: the pids killed are the results of all forks.
* `killsOnlyKids_iff`: these are the children exactly when no `fork` failed.
-/

namespace DebugCode.CpuLoad

/-- `MAX_KIDS` -/
def maxKids : Nat := 8

/-- The variables of cpu-hog that outlive a call, and the calls made. -/
structure Hog where
  pids : List Int
  reaped : Int
  calls : List Call

/-- The loop of `reap`: the calls made, and the slots after it. -/
def reapLoop : List Int → List Call × List Int
  | [] => ([], [])
  | pid :: pids =>
    let rest := reapLoop pids
    if pid ≠ 0 then (.kill pid :: .waitid pid :: rest.1, 0 :: rest.2)
    else (rest.1, pid :: rest.2)

def reap (s : Hog) : Hog :=
  if s.reaped = 0 then
    let loop := reapLoop s.pids
    ⟨loop.2, s.reaped + 1, s.calls ++ loop.1⟩
  else s

/-- The handler of SIGINT; SIGINT is blocked while it runs. -/
def handler (s : Hog) : Hog := reap s

/-- The loop of `main` from kid `i` on, with `n` kids to go. -/
def forkLoop (forks : Nat → ForkResult) (pids : List Int) (i : Nat) : Nat → List Int
  | 0 => pids
  | n + 1 => forkLoop forks (pids.set i (forks i).pid) (i + 1) n

/-- `main`, with the number of SIGINTs delivered after the handler is installed. -/
def hog (forks : Nat → ForkResult) (sigints : Nat) : Hog :=
  handler^[sigints] ⟨forkLoop forks (List.replicate maxKids 0) 0 maxKids, 0, []⟩

/-! ## The slots -/

/-- The results of the forks. -/
def forkPids (forks : Nat → ForkResult) : List Int :=
  ((List.range maxKids).map forks).map ForkResult.pid

/-- The children: the results of the forks that succeeded. -/
def kids (forks : Nat → ForkResult) : List Int :=
  (((List.range maxKids).map forks).filter ForkResult.isChild).map ForkResult.pid

theorem forkLoop_eq (forks : Nat → ForkResult) (stored : List Int) (n : Nat) :
    forkLoop forks (stored ++ List.replicate n 0) stored.length n =
      stored ++ ((List.range' stored.length n).map forks).map ForkResult.pid := by
  induction n generalizing stored with
  | zero => simp [forkLoop]
  | succ n ih =>
    have hNext := ih (stored ++ [(forks stored.length).pid])
    rw [List.length_append, List.length_singleton] at hNext
    rw [forkLoop, set_next, hNext, List.range'_succ]
    simp

theorem forkLoop_forkPids (forks : Nat → ForkResult) :
    forkLoop forks (List.replicate maxKids 0) 0 maxKids = forkPids forks := by
  have hLoop := forkLoop_eq forks [] maxKids
  rw [forkPids, List.range_eq_range']
  simpa only [List.nil_append, List.length_nil] using hLoop

theorem ForkResult.pid_ne_zero (r : ForkResult) : r.pid ≠ 0 := by
  cases r with
  | child p =>
    have hPos := p.hPos
    show p.val ≠ 0
    omega
  | failed => decide

/-! ## Reaping -/

theorem reapLoop_calls (pids : List Int) :
    (reapLoop pids).1 = stopEach (pids.filter (· != 0)) := by
  induction pids with
  | nil => rfl
  | cons pid pids ih =>
    by_cases hZero : pid = 0
    · simp [reapLoop, hZero, ih]
    · simp [reapLoop, hZero, ih, stopEach]

theorem handler_reaped {s : Hog} (hReaped : s.reaped ≠ 0) : handler s = s := if_neg hReaped

/-- However many SIGINTs are delivered, the slots are reaped once. -/
theorem handler_iterate {s : Hog} (hFirst : s.reaped = 0) (n : Nat) :
    handler^[n + 1] s = handler s := by
  rw [Function.iterate_succ_apply]
  apply Function.iterate_fixed
  apply handler_reaped
  simp [handler, reap, hFirst]

/-- The pids killed are the results of all forks. -/
theorem signalled_hog (forks : Nat → ForkResult) (n : Nat) :
    signalled (hog forks (n + 1)).calls = forkPids forks := by
  have hAll : (forkPids forks).filter (· != 0) = forkPids forks := by
    rw [List.filter_eq_self]
    intro pid hMem
    obtain ⟨r, -, rfl⟩ := List.mem_map.mp hMem
    simpa using r.pid_ne_zero
  rw [hog, handler_iterate rfl, forkLoop_forkPids]
  show signalled ([] ++ (reapLoop (forkPids forks)).1) = forkPids forks
  rw [List.nil_append, reapLoop_calls, hAll, signalled_stopEach]

/-! ## Who is killed -/

/-- The pids passed to `kill` are exactly the children, each once, or none when no SIGINT is
delivered. -/
def KillsOnlyKids (forks : Nat → ForkResult) (sigints : Nat) : Prop :=
  (signalled (hog forks sigints).calls).Perm (if sigints = 0 then [] else kids forks)

theorem forkPids_perm_kids_iff (forks : Nat → ForkResult) :
    (forkPids forks).Perm (kids forks) ↔ ∀ i < maxKids, forks i ≠ .failed := by
  have hChild : ∀ r : ForkResult, r.isChild = true ↔ r ≠ .failed := by
    intro r
    cases r <;> simp
  have hAll : (∀ r ∈ (List.range maxKids).map forks, r.isChild = true) ↔
      ∀ i < maxKids, forks i ≠ .failed := by
    simp [hChild]
  rw [← hAll]
  constructor
  · intro hPerm
    have hLength := hPerm.length_eq
    simp only [forkPids, kids, List.length_map (f := ForkResult.pid)] at hLength
    exact List.length_filter_eq_length_iff.mp hLength.symm
  · intro hChildren
    rw [kids, List.filter_eq_self.mpr hChildren]
    exact List.Perm.refl _

/-- cpu-hog kills exactly its children as long as no `fork` fails, or it is not interrupted. -/
theorem killsOnlyKids_iff (forks : Nat → ForkResult) (sigints : Nat) :
    KillsOnlyKids forks sigints ↔ sigints = 0 ∨ ∀ i < maxKids, forks i ≠ .failed := by
  cases sigints with
  | zero => exact iff_of_true (List.Perm.refl _) (.inl rfl)
  | succ n =>
    rw [KillsOnlyKids, signalled_hog, if_neg (Nat.succ_ne_zero n), forkPids_perm_kids_iff]
    simp

/-- The forks of a run in which only the fourth one fails. -/
def fourthFails (i : Nat) : ForkResult :=
  if i = 3 then .failed else .child ⟨i + 1000, by omega⟩

/-- With one `fork` that fails, a SIGINT has every process on the system killed. -/
theorem killsOnlyKids_fourthFails :
    ¬ KillsOnlyKids fourthFails 1 ∧ -1 ∈ signalled (hog fourthFails 1).calls := by
  have hKilled : signalled (hog fourthFails 1).calls =
      [1000, 1001, 1002, -1, 1004, 1005, 1006, 1007] := rfl
  have hKids : kids fourthFails = [1000, 1001, 1002, 1004, 1005, 1006, 1007] := rfl
  refine ⟨fun hOnly => ?_, by simp [hKilled]⟩
  rw [KillsOnlyKids, hKilled, if_neg Nat.one_ne_zero, hKids] at hOnly
  exact absurd hOnly.length_eq (by simp)

end DebugCode.CpuLoad
