import DebugCode.Lib.Run
import Mathlib.Data.UInt
import Mathlib.Logic.Function.Basic

/-!
# The stop flag of the benchmark

One call of `test` with the `test64` threads it creates. Every access to `start_test` and to
`end_test` is a step of its own, and the steps of all parties come in any order. What a
thread does between two accesses is part of the step behind it.

Every thread clears `end_test` when it starts. A thread that starts after thread 0 has set
the flag takes it back, and then nobody sets it again.

* `Effect`, `effect_of_step`: what each step can do.
* `stopFlag_kept_iff`: the flag is kept in a run exactly when no thread starts that late.
* `not_done_of_late`: otherwise `test` does not return.
-/

namespace DebugCode.RdrandBenchmark

open Lib

/-- `#define ITERATIONS (100000000)` -/
def iterations : UInt64 := 100000000

/-- Where a thread is in `test64`. -/
inductive ThreadControl : Type
  | absent
  /-- In front of `end_test = false`. -/
  | entry
  | spin
  /-- In the counted loop; the store `end_test = true` is behind it. -/
  | measuring
  /-- At the test of `end_test`, with the value of `i`. -/
  | working (i : UInt64)
  /-- Behind the last access, with `info->iter`. -/
  | finished (iter : UInt64)
deriving DecidableEq

/-- Where `test` is. -/
inductive TestControl : Type
  /-- In front of `start_test = false`. -/
  | clear
  | create (i : Nat)
  | join (i : Nat)
  | done
deriving DecidableEq

structure State where
  control : TestControl
  threads : Nat → ThreadControl
  startTest : Bool
  endTest : Bool

def State.goto (control : TestControl) (s : State) : State := { s with control := control }

def State.move (i : Nat) (thread : ThreadControl) (s : State) : State :=
  { s with threads := Function.update s.threads i thread }

/-- `info[i].thread_num = i`, which is a `uint16_t`. -/
def threadNum (i : Nat) : Nat := i % 2 ^ 16

/-- The branch a thread takes when the test starts. -/
def started (i : Nat) : ThreadControl := if threadNum i = 0 then .measuring else .working 0

inductive Action : Type
  | test
  | thread (i : Nat)
deriving DecidableEq

def ThreadControl.isFinished : ThreadControl → Bool
  | finished _ => true
  | _ => false

/-- The next access of `test(threads)`. -/
def stepTest (threads : Nat) (s : State) : Option State :=
  match s.control with
  | .clear => some { s.goto (.create 0) with startTest := false }
  | .create i =>
    if i < threads then some ((s.goto (.create (i + 1))).move i .entry)
    else some { s.goto (.join 0) with startTest := true }
  | .join i =>
    if i < threads then if (s.threads i).isFinished then some (s.goto (.join (i + 1))) else none
    else some (s.goto .done)
  | .done => none

/-- The next access of `test64` in thread `i`. -/
def stepThread (i : Nat) (s : State) : Option State :=
  match s.threads i with
  | .absent => none
  | .entry => some { s.move i .spin with endTest := false }
  | .spin => if s.startTest then some (s.move i (started i)) else some s
  | .measuring => some { s.move i (.finished iterations) with endTest := true }
  | .working n =>
    if s.endTest then some (s.move i (.finished n)) else some (s.move i (.working (n + 32)))
  | .finished _ => none

/-- A call of `test`, with the flags as the call before left them. -/
def test (threads : Nat) (startTest endTest : Bool) : Machine State Action where
  start := ⟨.clear, fun _ => .absent, startTest, endTest⟩
  step s
    | .test => stepTest threads s
    | .thread i => stepThread i s

/-- Thread 0 has set `end_test`. -/
def State.HasSet (s : State) : Prop := (s.threads 0).isFinished = true

/-- From the store of thread 0 on, the flag is set in every state of the run. -/
def Kept (threads : Nat) (startTest endTest : Bool) (ps : List (State × Action)) : Prop :=
  ∀ qs s, (test threads startTest endTest).Run qs s → qs <+: ps → s.HasSet → s.endTest = true

/-- No thread takes its first step when thread 0 has set the flag. -/
def Timely (ps : List (State × Action)) : Prop :=
  ∀ p ∈ ps, ∀ i, p.2 = .thread i → p.1.threads i = .entry → ¬ p.1.HasSet

/-! ## What a step can do -/

/-- The effects of the steps. -/
inductive Effect (threads : Nat) (s : State) : Action → State → Prop
  | clear (hControl : s.control = .clear) :
      Effect threads s .test { s.goto (.create 0) with startTest := false }
  | create {i : Nat} (hControl : s.control = .create i) (hi : i < threads) :
      Effect threads s .test ((s.goto (.create (i + 1))).move i .entry)
  | go {i : Nat} (hControl : s.control = .create i) (hi : threads ≤ i) :
      Effect threads s .test { s.goto (.join 0) with startTest := true }
  | join {i : Nat} (hControl : s.control = .join i) (hi : i < threads)
      (hFinished : (s.threads i).isFinished = true) :
      Effect threads s .test (s.goto (.join (i + 1)))
  | done {i : Nat} (hControl : s.control = .join i) (hi : threads ≤ i) :
      Effect threads s .test (s.goto .done)
  | reset {i : Nat} (hThread : s.threads i = .entry) :
      Effect threads s (.thread i) { s.move i .spin with endTest := false }
  | wait {i : Nat} (hThread : s.threads i = .spin) (hStart : s.startTest = false) :
      Effect threads s (.thread i) s
  | start {i : Nat} (hThread : s.threads i = .spin) (hStart : s.startTest = true) :
      Effect threads s (.thread i) (s.move i (started i))
  | set {i : Nat} (hThread : s.threads i = .measuring) :
      Effect threads s (.thread i) { s.move i (.finished iterations) with endTest := true }
  | stop {i : Nat} {n : UInt64} (hThread : s.threads i = .working n) (hEnd : s.endTest = true) :
      Effect threads s (.thread i) (s.move i (.finished n))
  | work {i : Nat} {n : UInt64} (hThread : s.threads i = .working n) (hEnd : s.endTest = false) :
      Effect threads s (.thread i) (s.move i (.working (n + 32)))

section

variable {threads : Nat} {startTest endTest : Bool} {s s' : State} {i : Nat}

theorem effect_of_stepTest (hStep : stepTest threads s = some s') :
    Effect threads s .test s' := by
  unfold stepTest at hStep
  cases hControl : s.control with
  | clear =>
    simp only [hControl, Option.some.injEq] at hStep
    exact hStep ▸ .clear hControl
  | create i =>
    simp only [hControl] at hStep
    split at hStep
    · exact Option.some.inj hStep ▸ .create hControl ‹_›
    · exact Option.some.inj hStep ▸ .go hControl (Nat.le_of_not_lt ‹_›)
  | join i =>
    simp only [hControl] at hStep
    split at hStep
    · split at hStep
      · exact Option.some.inj hStep ▸ .join hControl ‹_› ‹_›
      · cases hStep
    · exact Option.some.inj hStep ▸ .done hControl (Nat.le_of_not_lt ‹_›)
  | done => simp [hControl] at hStep

theorem effect_of_stepThread (hStep : stepThread i s = some s') :
    Effect threads s (.thread i) s' := by
  unfold stepThread at hStep
  cases hThread : s.threads i with
  | absent => simp [hThread] at hStep
  | entry =>
    simp only [hThread, Option.some.injEq] at hStep
    exact hStep ▸ .reset hThread
  | spin =>
    simp only [hThread] at hStep
    split at hStep
    · exact Option.some.inj hStep ▸ .start hThread ‹_›
    · exact Option.some.inj hStep ▸ .wait hThread (Bool.eq_false_iff.mpr ‹_›)
  | measuring =>
    simp only [hThread, Option.some.injEq] at hStep
    exact hStep ▸ .set hThread
  | working n =>
    simp only [hThread] at hStep
    split at hStep
    · exact Option.some.inj hStep ▸ .stop hThread ‹_›
    · exact Option.some.inj hStep ▸ .work hThread (Bool.eq_false_iff.mpr ‹_›)
  | finished n => simp [hThread] at hStep

theorem effect_of_step {a : Action} (hStep : (test threads startTest endTest).step s a = some s') :
    Effect threads s a s' := by
  cases a with
  | test => exact effect_of_stepTest hStep
  | thread i => exact effect_of_stepThread hStep

end

/-! ## The threads of a run -/

@[simp] theorem move_same (i : Nat) (thread : ThreadControl) (s : State) :
    (s.move i thread).threads i = thread := by
  simp only [State.move, Function.update_self]

theorem move_other {i j : Nat} (hNe : j ≠ i) (thread : ThreadControl) (s : State) :
    (s.move i thread).threads j = s.threads j := by
  simp only [State.move, Function.update_of_ne hNe]

/-- What holds of the threads in every run. -/
structure Invariant (threads : Nat) (s : State) : Prop where
  bounded : ∀ i, s.threads i ≠ .absent → i < threads
  fresh_clear : s.control = .clear → ∀ i, s.threads i = .absent
  fresh : ∀ j, s.control = .create j → ∀ i, j ≤ i → s.threads i = .absent
  measuring : ∀ i, s.threads i = .measuring → threadNum i = 0
  working : ∀ i n, s.threads i = .working n → threadNum i ≠ 0
  joined : ∀ j, s.control = .join j → ∀ i < j, (s.threads i).isFinished = true
  joined_all : s.control = .done → ∀ i < threads, (s.threads i).isFinished = true

/-- A step of a thread keeps the invariant when it goes where its number sends it. -/
theorem Invariant.move {threads i : Nat} {thread : ThreadControl} {s : State}
    (hs : Invariant threads s) (hPresent : s.threads i ≠ .absent)
    (hRunning : (s.threads i).isFinished = false)
    (hMeasuring : thread = .measuring → threadNum i = 0)
    (hWorking : ∀ n, thread = .working n → threadNum i ≠ 0) :
    Invariant threads (s.move i thread) := by
  have hOther : ∀ {j}, (s.threads j).isFinished = true →
      ((s.move i thread).threads j).isFinished = true := by
    intro j hFinished
    have hNe : j ≠ i := by
      rintro rfl
      rw [hRunning] at hFinished
      cases hFinished
    rwa [move_other hNe]
  constructor
  · intro j hj
    by_cases hSame : j = i
    · exact hSame ▸ hs.bounded i hPresent
    · exact hs.bounded j (by rwa [move_other hSame] at hj)
  · intro hControl
    exact absurd (hs.fresh_clear hControl i) hPresent
  · intro j hControl k hk
    have hNe : k ≠ i := by
      rintro rfl
      exact hPresent (hs.fresh j hControl k hk)
    rw [move_other hNe]
    exact hs.fresh j hControl k hk
  · intro j hj
    by_cases hSame : j = i
    · subst hSame
      rw [move_same] at hj
      exact hMeasuring hj
    · exact hs.measuring j (by rwa [move_other hSame] at hj)
  · intro j n hj
    by_cases hSame : j = i
    · subst hSame
      rw [move_same] at hj
      exact hWorking n hj
    · exact hs.working j n (by rwa [move_other hSame] at hj)
  · intro j hControl k hk
    exact hOther (hs.joined j hControl k hk)
  · intro hControl k hk
    exact hOther (hs.joined_all hControl k hk)

theorem Invariant.create {threads i : Nat} {s : State} (hs : Invariant threads s)
    (hControl : s.control = .create i) (hi : i < threads) :
    Invariant threads ((s.goto (.create (i + 1))).move i .entry) := by
  have hAbsent : ∀ j, s.threads j ≠ .absent → j ≠ i := by
    rintro j hj rfl
    exact hj (hs.fresh j hControl j le_rfl)
  have hThreads : ∀ {j : Nat}, j ≠ i →
      ((s.goto (.create (i + 1))).move i .entry).threads j = s.threads j :=
    fun hNe => move_other hNe _ _
  constructor
  · intro j hj
    by_cases hSame : j = i
    · exact hSame ▸ hi
    · exact hs.bounded j (by rwa [hThreads hSame] at hj)
  · exact nofun
  · intro j hCreate k hk
    obtain rfl : i + 1 = j := TestControl.create.inj hCreate
    rw [hThreads (by omega)]
    exact hs.fresh i hControl k (by omega)
  · intro j hj
    by_cases hSame : j = i
    · subst hSame
      rw [move_same] at hj
      cases hj
    · exact hs.measuring j (by rwa [hThreads hSame] at hj)
  · intro j n hj
    by_cases hSame : j = i
    · subst hSame
      rw [move_same] at hj
      cases hj
    · exact hs.working j n (by rwa [hThreads hSame] at hj)
  · exact nofun
  · exact nofun

theorem started_cases (i : Nat) : (started i = .measuring ∧ threadNum i = 0) ∨
    (started i = .working 0 ∧ threadNum i ≠ 0) := by
  rw [started]
  split_ifs with hZero
  · exact Or.inl ⟨rfl, hZero⟩
  · exact Or.inr ⟨rfl, hZero⟩

/-- The flags are not part of the invariant. -/
theorem Invariant.flags {threads : Nat} {s : State} (hs : Invariant threads s)
    (startTest endTest : Bool) :
    Invariant threads { s with startTest := startTest, endTest := endTest } :=
  ⟨hs.bounded, hs.fresh_clear, hs.fresh, hs.measuring, hs.working, hs.joined, hs.joined_all⟩

theorem Invariant.effect {threads : Nat} {s s' : State} {a : Action} (hs : Invariant threads s)
    (hEffect : Effect threads s a s') : Invariant threads s' := by
  cases hEffect with
  | clear hControl =>
    have hAbsent := hs.fresh_clear hControl
    exact ⟨hs.bounded, nofun, fun _ _ i _ => hAbsent i, hs.measuring, hs.working, nofun, nofun⟩
  | create hControl hi => exact hs.create hControl hi
  | go hControl hi =>
    refine ⟨hs.bounded, nofun, nofun, hs.measuring, hs.working, ?_, nofun⟩
    intro j hJoin i hi
    obtain rfl : 0 = j := TestControl.join.inj hJoin
    cases hi
  | @join i hControl hi hFinished =>
    refine ⟨hs.bounded, nofun, nofun, hs.measuring, hs.working, ?_, nofun⟩
    intro j hJoin k hk
    obtain rfl : i + 1 = j := TestControl.join.inj hJoin
    rcases Nat.lt_succ_iff_lt_or_eq.mp hk with hBefore | rfl
    · exact hs.joined i hControl k hBefore
    · exact hFinished
  | @done i hControl hi =>
    refine ⟨hs.bounded, nofun, nofun, hs.measuring, hs.working, nofun, ?_⟩
    intro _ k hk
    exact hs.joined i hControl k (hk.trans_le hi)
  | @reset i hThread =>
    have hMove : Invariant threads (s.move i .spin) :=
      hs.move (by simp [hThread]) (by rw [hThread]; rfl) nofun nofun
    exact hMove.flags s.startTest false
  | wait hThread hStart => exact hs
  | @start i hThread hStart =>
    apply hs.move (by simp [hThread]) (by rw [hThread]; rfl)
    · intro hMeasuring
      rcases started_cases i with ⟨-, hZero⟩ | ⟨hWorking, -⟩
      · exact hZero
      · rw [hWorking] at hMeasuring
        cases hMeasuring
    · intro n hWorking
      rcases started_cases i with ⟨hMeasuring, -⟩ | ⟨-, hNe⟩
      · rw [hMeasuring] at hWorking
        cases hWorking
      · exact hNe
  | @set i hThread =>
    have hMove : Invariant threads (s.move i (.finished iterations)) :=
      hs.move (by simp [hThread]) (by rw [hThread]; rfl) nofun nofun
    exact hMove.flags s.startTest true
  | stop hThread hEnd =>
    exact hs.move (by simp [hThread]) (by rw [hThread]; rfl) nofun nofun
  | @work i n hThread hEnd =>
    exact hs.move (by simp [hThread]) (by rw [hThread]; rfl) nofun
      fun _ _ => hs.working i n hThread

section

variable {threads : Nat} {startTest endTest : Bool} {ps : List (State × Action)} {s : State}

theorem invariant_of_run (hRun : (test threads startTest endTest).Run ps s) :
    Invariant threads s := by
  apply hRun.invariant (I := fun _ s => Invariant threads s)
  · exact ⟨fun i hi => absurd rfl hi, fun _ _ => rfl, fun _ _ _ _ => rfl, nofun, nofun, nofun,
      nofun⟩
  · exact fun _ _ _ _ hs hStep => hs.effect (effect_of_step hStep)

/-! ## The flag -/

theorem hasSet_move_iff {i : Nat} {thread : ThreadControl} :
    (s.move i thread).HasSet ↔ (i = 0 ∧ thread.isFinished = true) ∨ (i ≠ 0 ∧ s.HasSet) := by
  by_cases hZero : i = 0
  · subst hZero
    simp [State.HasSet]
  · have hNe : 0 ≠ i := fun h => hZero h.symm
    simp [State.HasSet, move_other hNe, hZero]

/-- A thread that goes on without finishing has not set the flag. -/
theorem hasSet_of_move {i : Nat} {thread : ThreadControl} (hThread : thread.isFinished = false)
    (hSet : (s.move i thread).HasSet) : i ≠ 0 ∧ s.HasSet := by
  rcases hasSet_move_iff.mp hSet with ⟨-, hFinished⟩ | hOther
  · rw [hThread] at hFinished
    cases hFinished
  · exact hOther

theorem ne_zero_of_hasSet {i : Nat} (hSet : s.HasSet)
    (hRunning : (s.threads i).isFinished = false) : i ≠ 0 := by
  rintro rfl
  rw [State.HasSet, hRunning] at hSet
  cases hSet

/-- A step of a thread that neither was nor is finished leaves it to the others. -/
theorem hasSet_move {i : Nat} {thread : ThreadControl}
    (hRunning : (s.threads i).isFinished = false) (hThread : thread.isFinished = false) :
    (s.move i thread).HasSet ↔ s.HasSet :=
  ⟨fun hSet => (hasSet_of_move hThread hSet).2, fun hSet =>
    hasSet_move_iff.mpr (Or.inr ⟨ne_zero_of_hasSet hSet hRunning, hSet⟩)⟩

theorem started_isFinished (i : Nat) : (started i).isFinished = false := by
  rcases started_cases i with ⟨hStarted, -⟩ | ⟨hStarted, -⟩
  · rw [hStarted]
    rfl
  · rw [hStarted]
    rfl

/-- One step that is not a late start keeps the flag. -/
theorem endTest_of_effect {s' : State} {a : Action} (hEffect : Effect threads s a s')
    (hKept : s.HasSet → s.endTest = true)
    (hTimely : ∀ i, a = .thread i → s.threads i = .entry → ¬ s.HasSet) (hSet : s'.HasSet) :
    s'.endTest = true := by
  cases hEffect with
  | clear hControl => exact hKept hSet
  | @create i hControl hi =>
    exact hKept (hasSet_of_move (s := s.goto (.create (i + 1))) rfl hSet).2
  | go hControl hi => exact hKept hSet
  | join hControl hi hFinished => exact hKept hSet
  | done hControl hi => exact hKept hSet
  | @reset i hThread => exact absurd (hasSet_of_move rfl hSet).2 (hTimely i rfl hThread)
  | wait hThread hStart => exact hKept hSet
  | @start i hThread hStart => exact hKept (hasSet_of_move (started_isFinished i) hSet).2
  | set hThread => rfl
  | stop hThread hEnd => exact hEnd
  | work hThread hEnd => exact hKept (hasSet_of_move rfl hSet).2

theorem Timely.of_append {qs rs : List (State × Action)} (hTimely : Timely (qs ++ rs)) :
    Timely qs := fun p hp => hTimely p (List.mem_append_left rs hp)

/-- In a run without late starts the flag stays set. -/
theorem endTest_of_timely (hRun : (test threads startTest endTest).Run ps s)
    (hTimely : Timely ps) (hSet : s.HasSet) : s.endTest = true := by
  induction hRun with
  | nil => cases hSet
  | @snoc ps s s' a hRun hStep ih =>
    apply endTest_of_effect (effect_of_step hStep) (ih hTimely.of_append) ?_ hSet
    exact hTimely (s, a) (List.mem_append_right ps List.mem_cons_self)

/-- A late start takes the flag back. -/
theorem late_start {i : Nat} {s' : State} (hEntry : s.threads i = .entry) (hSet : s.HasSet)
    (hStep : (test threads startTest endTest).step s (.thread i) = some s') :
    s'.endTest = false ∧ s'.HasSet ∧ s'.threads i = .spin := by
  have hReset : stepThread i s = some { s.move i .spin with endTest := false } := by
    simp only [stepThread, hEntry]
  obtain rfl := Option.some.inj (hReset.symm.trans hStep)
  exact ⟨rfl, (hasSet_move (by rw [hEntry]; rfl) rfl).mpr hSet, move_same i .spin s⟩

/-- The flag is kept in a run exactly when no thread starts after thread 0 has set it. -/
theorem stopFlag_kept_iff (hRun : (test threads startTest endTest).Run ps s) :
    Kept threads startTest endTest ps ↔ Timely ps := by
  constructor
  · intro hKept p hp i hAction hEntry hSet
    obtain ⟨qs, rs, rfl⟩ := List.append_of_mem hp
    obtain ⟨hBefore, s', hStep⟩ := hRun.step_of_append
    have hAfter := hBefore.snoc hStep
    rw [hAction] at hStep
    obtain ⟨hReset, hSet', -⟩ := late_start hEntry hSet hStep
    have hFlag := hKept _ s' hAfter ⟨rs, by simp⟩ hSet'
    rw [hReset] at hFlag
    cases hFlag
  · intro hTimely qs t hPart hPrefix hSet
    obtain ⟨rs, rfl⟩ := hPrefix
    exact endTest_of_timely hPart hTimely.of_append hSet

/-- The store of thread 0 is the only step that sets the flag for it. -/
theorem hasSet_effect {s' : State} {a : Action} (hs : Invariant threads s)
    (hEffect : Effect threads s a s') :
    s'.HasSet ↔ s.HasSet ∨ (a = .thread 0 ∧ s.threads 0 = .measuring) := by
  have hTest : ¬ (Action.test = .thread 0 ∧ s.threads 0 = .measuring) := fun h => nomatch h.1
  have hThreads : ∀ {i : Nat}, s.threads i ≠ .measuring →
      ¬ (Action.thread i = .thread 0 ∧ s.threads 0 = .measuring) := by
    intro i hNot hBoth
    obtain rfl := Action.thread.inj hBoth.1
    exact hNot hBoth.2
  cases hEffect with
  | clear hControl => exact (or_iff_left hTest).symm
  | @create i hControl hi =>
    have hFresh : ((s.goto (.create (i + 1))).threads i).isFinished = false := by
      show (s.threads i).isFinished = false
      rw [hs.fresh i hControl i le_rfl]
      rfl
    exact (hasSet_move hFresh rfl).trans (or_iff_left hTest).symm
  | go hControl hi => exact (or_iff_left hTest).symm
  | join hControl hi hFinished => exact (or_iff_left hTest).symm
  | done hControl hi => exact (or_iff_left hTest).symm
  | @reset i hThread =>
    rw [or_iff_left (hThreads (by simp [hThread]))]
    exact hasSet_move (s := s) (i := i) (by rw [hThread]; rfl) rfl
  | wait hThread hStart => exact (or_iff_left (hThreads (by simp [hThread]))).symm
  | @start i hThread hStart =>
    rw [or_iff_left (hThreads (by simp [hThread]))]
    exact hasSet_move (by rw [hThread]; rfl) (started_isFinished i)
  | @set i hThread =>
    have hIff : ({ s.move i (.finished iterations) with endTest := true } : State).HasSet ↔ _ :=
      hasSet_move_iff (s := s)
    rw [hIff]
    by_cases hZero : i = 0
    · subst hZero
      simp [hThread, ThreadControl.isFinished]
    · simp [hZero]
  | @stop i n hThread hEnd =>
    have hNe : i ≠ 0 := by
      rintro rfl
      exact hs.working 0 n hThread rfl
    rw [hasSet_move_iff]
    simp [hNe]
  | work hThread hEnd =>
    rw [or_iff_left (hThreads (by simp [hThread]))]
    exact hasSet_move (by rw [hThread]; rfl) rfl

/-- Thread 0 has set the flag when its store is among the steps of the run. -/
theorem hasSet_iff (hRun : (test threads startTest endTest).Run ps s) :
    s.HasSet ↔ ∃ p ∈ ps, p.2 = .thread 0 ∧ p.1.threads 0 = .measuring := by
  induction hRun with
  | nil =>
    constructor
    · intro hSet
      cases hSet
    · rintro ⟨p, hp, -⟩
      cases hp
  | @snoc ps s s' a hRun hStep ih =>
    rw [hasSet_effect (invariant_of_run hRun) (effect_of_step hStep), ih]
    simp [or_and_right, exists_or]

/-! ## What becomes of the other threads -/

/-- Once the flag is set for good, a working thread finishes at its next test. -/
theorem worker_finishes (hRun : (test threads startTest endTest).Run ps s) (hTimely : Timely ps)
    (hSet : s.HasSet) {i : Nat} {n : UInt64} (hWorking : s.threads i = .working n) :
    (test threads startTest endTest).step s (.thread i) = some (s.move i (.finished n)) := by
  have hEnd := endTest_of_timely hRun hTimely hSet
  show stepThread i s = _
  simp only [stepThread, hWorking, hEnd, if_true]

/-- The flag is lost, and thread `i` has not seen it. -/
structure Lost (i : Nat) (s : State) : Prop where
  hasSet : s.HasSet
  endTest : s.endTest = false
  present : s.threads i ≠ .absent
  running : (s.threads i).isFinished = false

theorem Lost.move {i j : Nat} {thread : ThreadControl} (hs : Lost i s)
    (hRunning : (s.threads j).isFinished = false) (hPresent : thread ≠ .absent)
    (hThread : thread.isFinished = false) : Lost i (s.move j thread) := by
  refine ⟨(hasSet_move hRunning hThread).mpr hs.hasSet, hs.endTest, ?_, ?_⟩
  · by_cases hSame : i = j
    · rwa [hSame, move_same]
    · rw [move_other hSame]
      exact hs.present
  · by_cases hSame : i = j
    · rwa [hSame, move_same]
    · rw [move_other hSame]
      exact hs.running

/-- As long as thread numbers are not cut, nobody is left who would set the flag again. -/
theorem Lost.effect {i : Nat} {s' : State} {a : Action} (hThreads : threads ≤ 2 ^ 16)
    (hInv : Invariant threads s) (hs : Lost i s) (hEffect : Effect threads s a s') :
    Lost i s' := by
  cases hEffect with
  | clear hControl => exact ⟨hs.hasSet, hs.endTest, hs.present, hs.running⟩
  | @create j hControl hj =>
    have hGoto : Lost i (s.goto (.create (j + 1))) :=
      ⟨hs.hasSet, hs.endTest, hs.present, hs.running⟩
    have hFresh : (s.goto (.create (j + 1))).threads j = .absent :=
      hInv.fresh j hControl j le_rfl
    exact hGoto.move (by rw [hFresh]; rfl) nofun rfl
  | go hControl hj => exact ⟨hs.hasSet, hs.endTest, hs.present, hs.running⟩
  | join hControl hj hFinished => exact ⟨hs.hasSet, hs.endTest, hs.present, hs.running⟩
  | done hControl hj => exact ⟨hs.hasSet, hs.endTest, hs.present, hs.running⟩
  | @reset j hThread =>
    have hMove : Lost i (s.move j .spin) := hs.move (by rw [hThread]; rfl) nofun rfl
    exact ⟨hMove.hasSet, rfl, hMove.present, hMove.running⟩
  | wait hThread hStart => exact hs
  | @start j hThread hStart =>
    apply hs.move (by rw [hThread]; rfl) _ (started_isFinished j)
    rcases started_cases j with ⟨hStarted, -⟩ | ⟨hStarted, -⟩
    · rw [hStarted]
      exact nofun
    · rw [hStarted]
      exact nofun
  | @set j hThread =>
    have hBound := hInv.bounded j (by simp [hThread])
    have hNumber := hInv.measuring j hThread
    have hNe := ne_zero_of_hasSet hs.hasSet (i := j) (by rw [hThread]; rfl)
    rw [threadNum, Nat.mod_eq_of_lt (hBound.trans_le hThreads)] at hNumber
    exact absurd hNumber hNe
  | stop hThread hEnd =>
    rw [hs.endTest] at hEnd
    cases hEnd
  | work hThread hEnd => exact hs.move (by rw [hThread]; rfl) nofun rfl

/-- After a late start the thread that started late runs forever, and `test` waits for it. -/
theorem not_done_of_late (hThreads : threads ≤ 2 ^ 16) {qs rs : List (State × Action)}
    {p : State × Action} (hRun : (test threads startTest endTest).Run (qs ++ p :: rs) s) {i : Nat}
    (hAction : p.2 = .thread i) (hEntry : p.1.threads i = .entry) (hSet : p.1.HasSet) :
    (s.threads i).isFinished = false ∧ s.control ≠ .done := by
  have hFrom : ∀ t, (test threads startTest endTest).Run (qs ++ [p]) t →
      Invariant threads t ∧ Lost i t := by
    intro t hPart
    have hStep := hPart.last.2
    rw [hAction] at hStep
    obtain ⟨hFlag, hSet', hSpin⟩ := late_start hEntry hSet hStep
    exact ⟨invariant_of_run hPart, hSet', hFlag, by rw [hSpin]; exact nofun, by rw [hSpin]; rfl⟩
  rw [List.append_cons] at hRun
  obtain ⟨hInv, hLost⟩ := hRun.preserved (I := fun s => Invariant threads s ∧ Lost i s)
    (fun _ _ _ h hStep => ⟨h.1.effect (effect_of_step hStep),
      h.2.effect hThreads h.1 (effect_of_step hStep)⟩) hFrom
  refine ⟨hLost.running, fun hDone => ?_⟩
  have hFinished := hInv.joined_all hDone i (hInv.bounded i hLost.present)
  rw [hLost.running] at hFinished
  cases hFinished

/-- With one thread the flag is never lost. -/
theorem timely_of_one (hRun : (test 1 startTest endTest).Run ps s) : Timely ps := by
  intro p hp i _ hEntry hSet
  obtain ⟨qs, rs, rfl⟩ := List.append_of_mem hp
  have hInv := invariant_of_run hRun.step_of_append.1
  have hBound := hInv.bounded i (by simp [hEntry])
  have hNe := ne_zero_of_hasSet hSet (i := i) (by rw [hEntry]; rfl)
  omega

end

/-- A whole call of `test(1)`. -/
theorem stopFlag_kept_one : ∃ ps s, (test 1 true true).Run ps s ∧ s.control = .done ∧
    Kept 1 true true ps := by
  obtain ⟨ps, -, hRun⟩ := Machine.Run.of_exec (M := test 1 true true)
    [.test, .test, .test, .thread 0, .thread 0, .thread 0, .test, .test] rfl
  exact ⟨ps, _, hRun, rfl, (stopFlag_kept_iff hRun).mpr (timely_of_one hRun)⟩

/-- The second of two threads starts when the first one is done. -/
theorem stopFlag_lost : ∃ ps s, ps.map Prod.snd = [.test, .test, .test, .test, .thread 0,
      .thread 0, .thread 0, .thread 1] ∧ (test 2 false false).Run ps s ∧
    s.HasSet ∧ s.endTest = false ∧ ¬ Kept 2 false false ps := by
  obtain ⟨ps, hActions, hRun⟩ := Machine.Run.of_exec (M := test 2 false false)
    [.test, .test, .test, .test, .thread 0, .thread 0, .thread 0, .thread 1] rfl
  refine ⟨ps, _, hActions, hRun, rfl, rfl, fun hKept => ?_⟩
  cases hKept ps _ hRun (List.prefix_refl ps) rfl

end DebugCode.RdrandBenchmark
