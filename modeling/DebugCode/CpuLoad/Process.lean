import DebugCode.CpuLoad.Children
import DebugCode.Lib.Run

/-!
# hz-test and latency-test as a machine

The whole run of `main`: every read of `cpu_pids` in `cpu_consume_kill` is a step of its own,
and a SIGINT may arrive between any two steps once `cpu_sigint_handler` is installed.

* `calloc_step`, `fork_step`, `sigint_step`, `kill_step`: what each step can do.
* `reaches_killLoop`, `reaches_startLoop`, `reaches_cpuConsumeKill`: left alone, the machine
  runs `cpu_consume_start` and `cpu_consume_kill`.
-/

namespace DebugCode.CpuLoad

open Lib

/-! ## The machine -/

/-- `cpu_pids[i]` -/
def slot (pids : List Int) (i : Nat) : Int := pids.getD i 0

/-- What `cpu_pids` points to. -/
inductive Table
  | null
  | allocated (pids : List Int)
  | freed

namespace Table

def isAllocated : Table → Bool
  | null => false
  | allocated _ => true
  | freed => false

/-- `cpu_pids[i] = pid` -/
def store (i : Nat) (pid : Int) : Table → Table
  | null => null
  | allocated pids => allocated (pids.set i pid)
  | freed => freed

/-- `free(cpu_pids)` -/
def free : Table → Table
  | null => null
  | allocated _ => freed
  | freed => freed

end Table

/-- The two calls of `cpu_consume_complete`: after a failed `fork` in `cpu_consume_start`, and
in `main`. -/
inductive Completion
  | inStart
  | inMain
  deriving DecidableEq

/-- Who called `cpu_consume_kill`. -/
inductive Caller
  | complete (site : Completion)
  | handler
  deriving DecidableEq

/-- The next thing the process does. -/
inductive Control
  | calloc
  | signal
  | fork (i : Nat)
  | store (i : Nat) (pid : ChildPid)
  | tests
  | killTest (caller : Caller) (i : Nat)
  | killSend (caller : Caller) (i : Nat)
  | killWait (caller : Caller) (i : Nat)
  | free (site : Completion)
  | jitter
  | exited
  | killed
  | segfault
  deriving DecidableEq

namespace Control

/-- Who called the `cpu_consume_kill` that is running. -/
def killing : Control → Option Caller
  | killTest caller _ => some caller
  | killSend caller _ => some caller
  | killWait caller _ => some caller
  | _ => none

def isEnd : Control → Bool
  | exited => true
  | killed => true
  | segfault => true
  | _ => false

theorem isEnd_of_killing {control : Control} {caller : Caller}
    (hKilling : control.killing = some caller) : control.isEnd = false := by
  cases control <;> first | rfl | cases hKilling

end Control

/-- The uses of the table its life cycle is about. -/
inductive Use
  | read (allocated : Bool)
  | free
  deriving DecidableEq

structure State where
  control : Control
  cpuPids : Table
  handler : Bool
  uses : List Use
  calls : List Call

/-- The outcome of `calloc` and of `fork`, any other step of the process, and the delivery of a
SIGINT. -/
inductive Act
  | calloc (success : Bool)
  | fork (result : ForkResult)
  | tick
  | sigint
  deriving DecidableEq

/-- The end of the loop in `cpu_consume_kill`. -/
def afterKill : Caller → Control
  | .complete site => .free site
  | .handler => .exited

/-- The end of the loop body in `cpu_consume_kill`. -/
def nextSlot (caller : Caller) (i : Nat) : Control :=
  if i + 1 < maxTasks then .killTest caller (i + 1) else afterKill caller

/-- The return from `cpu_consume_complete`; `main` ignores that `cpu_consume_start` failed. -/
def afterFree : Completion → Control
  | .inStart => .tests
  | .inMain => .jitter

namespace State

def start : State := ⟨.calloc, .null, false, [], []⟩

/-- A read of `cpu_pids[i]` in `cpu_consume_kill`. A null pointer ends the process, and a block
that was freed may hold any value. -/
def read (garbage : Nat → Int) (i : Nat) (s : State) (next : Int → State → State) : State :=
  let s' := { s with uses := s.uses ++ [.read s.cpuPids.isAllocated] }
  match s.cpuPids with
  | .null => { s' with control := .segfault }
  | .allocated pids => next (slot pids i) s'
  | .freed => next (garbage i) s'

/-- Where a SIGINT may be delivered: it is blocked while its handler runs. -/
def interruptible (s : State) : Bool :=
  s.handler && !s.control.isEnd && s.control.killing != some .handler

end State

/-- The steps of the process; `garbage` is what a freed table holds. -/
def step (P : Config) (garbage : Nat → Int) (s : State) : Act → Option State
  | .calloc success =>
    match s.control with
    | .calloc =>
      if success then
        some { s with control := .signal, cpuPids := .allocated (List.replicate maxTasks 0) }
      else some { s with control := .tests }
    | _ => none
  | .fork result =>
    match s.control with
    | .fork i =>
      match result with
      | .child pid => some { s with control := .store i pid }
      | .failed => some { s with control := .killTest (.complete .inStart) 0 }
    | _ => none
  | .sigint =>
    if s.interruptible then some { s with control := .killTest .handler 0 } else none
  | .tick =>
    match s.control with
    | .signal => some { s with control := .fork 0, handler := true }
    | .store i pid =>
      some { s with
        control := if i + 1 < maxTasks then .fork (i + 1) else .tests
        cpuPids := s.cpuPids.store i pid.val }
    | .tests => some { s with control := .killTest (.complete .inMain) 0 }
    | .killTest caller i =>
      some <| s.read garbage i fun pid s =>
        if P.program.selects pid then { s with control := .killSend caller i }
        else { s with control := nextSlot caller i }
    | .killSend caller i =>
      some <| s.read garbage i fun pid s =>
        { s with
          control := if P.endedBy pid then .killed else .killWait caller i
          calls := s.calls ++ [.kill pid] }
    | .killWait caller i =>
      some <| s.read garbage i fun pid s =>
        { s with control := nextSlot caller i, calls := s.calls ++ [.waitid pid] }
    | .free site =>
      some { s with
        control := afterFree site
        cpuPids := s.cpuPids.free
        uses := s.uses ++ [.free] }
    | .jitter => some { s with control := .exited }
    | _ => none

/-- A run of `main`. -/
def process (P : Config) (garbage : Nat → Int) : Machine State Act :=
  ⟨State.start, step P garbage⟩

/-! ## What a step can do -/

section

variable {P : Config} {garbage : Nat → Int} {s s' : State}

theorem calloc_step {success : Bool} (hStep : step P garbage s (.calloc success) = some s') :
    s.control = .calloc ∧
      ((success = true ∧ s' = { s with
        control := .signal, cpuPids := .allocated (List.replicate maxTasks 0) }) ∨
      (success = false ∧ s' = { s with control := .tests })) := by
  simp only [step] at hStep
  split at hStep
  · next hControl =>
    cases success <;> simp_all
  · cases hStep

theorem fork_step {result : ForkResult} (hStep : step P garbage s (.fork result) = some s') :
    ∃ i, s.control = .fork i ∧
      ((∃ pid, result = .child pid ∧ s' = { s with control := .store i pid }) ∨
      (result = .failed ∧ s' = { s with control := .killTest (.complete .inStart) 0 })) := by
  simp only [step] at hStep
  split at hStep
  · next i hControl =>
    refine ⟨i, hControl, ?_⟩
    cases result <;> simp_all
  · cases hStep

theorem sigint_step (hStep : step P garbage s .sigint = some s') :
    s.handler = true ∧ s.control.isEnd = false ∧ s.control.killing ≠ some .handler ∧
      s' = { s with control := .killTest .handler 0 } := by
  simp only [step, State.interruptible, Option.ite_none_right_eq_some, Bool.and_eq_true,
    bne_iff_ne, ne_eq, Bool.not_eq_true', Option.some.injEq] at hStep
  obtain ⟨⟨⟨hHandler, hEnd⟩, hKilling⟩, hNext⟩ := hStep
  exact ⟨hHandler, hEnd, hKilling, hNext.symm⟩

theorem read_eq_of_allocated {pids : List Int} (hTable : s.cpuPids = .allocated pids) (i : Nat)
    (next : Int → State → State) :
    s.read garbage i next =
      next (slot pids i) { s with uses := s.uses ++ [.read true] } := by
  simp [State.read, hTable, Table.isAllocated]

theorem read_cases (i : Nat) (next : Int → State → State) :
    s.read garbage i next =
        { s with uses := s.uses ++ [.read s.cpuPids.isAllocated], control := .segfault } ∨
      ∃ pid, s.read garbage i next =
        next pid { s with uses := s.uses ++ [.read s.cpuPids.isAllocated] } := by
  unfold State.read
  cases s.cpuPids with
  | null => exact .inl rfl
  | allocated pids => exact .inr ⟨_, rfl⟩
  | freed => exact .inr ⟨_, rfl⟩

theorem nextSlot_killing (caller : Caller) (i : Nat) :
    (nextSlot caller i).killing = some caller ∨ nextSlot caller i = afterKill caller := by
  unfold nextSlot
  split
  · exact .inl rfl
  · exact .inr rfl

/-- A read of the table, after which `cpu_consume_kill` goes on, comes to its end, or the process
ends. -/
theorem read_step {caller : Caller} (i : Nat) {next : Int → State → State}
    (hNext : ∀ pid t, (next pid t).cpuPids = t.cpuPids ∧ (next pid t).uses = t.uses ∧
      ((next pid t).control.killing = some caller ∨ (next pid t).control = afterKill caller ∨
        (next pid t).control.isEnd = true)) :
    (s.read garbage i next).cpuPids = s.cpuPids ∧
      (s.read garbage i next).uses = s.uses ++ [.read s.cpuPids.isAllocated] ∧
      ((s.read garbage i next).control.killing = some caller ∨
        (s.read garbage i next).control = afterKill caller ∨
        (s.read garbage i next).control.isEnd = true) := by
  rcases read_cases i next with hRead | ⟨pid, hRead⟩
  · rw [hRead]
    exact ⟨rfl, rfl, .inr (.inr rfl)⟩
  · rw [hRead]
    exact hNext pid _

/-- Every step of `cpu_consume_kill` reads the table. -/
theorem kill_step {caller : Caller} (hControl : s.control.killing = some caller)
    (hStep : step P garbage s .tick = some s') :
    s'.cpuPids = s.cpuPids ∧ s'.uses = s.uses ++ [.read s.cpuPids.isAllocated] ∧
      (s'.control.killing = some caller ∨ s'.control = afterKill caller ∨
        s'.control.isEnd = true) := by
  cases hNow : s.control with
  | killTest c i =>
    obtain rfl : c = caller := by simpa [hNow, Control.killing] using hControl
    simp only [step, hNow, Option.some.injEq] at hStep
    subst hStep
    refine read_step i fun pid t => ?_
    split
    · exact ⟨rfl, rfl, .inl rfl⟩
    · exact ⟨rfl, rfl, (nextSlot_killing c i).imp_right .inl⟩
  | killSend c i =>
    obtain rfl : c = caller := by simpa [hNow, Control.killing] using hControl
    simp only [step, hNow, Option.some.injEq] at hStep
    subst hStep
    refine read_step i fun pid t => ⟨rfl, rfl, ?_⟩
    dsimp only
    split
    · exact .inr (.inr rfl)
    · exact .inl rfl
  | killWait c i =>
    obtain rfl : c = caller := by simpa [hNow, Control.killing] using hControl
    simp only [step, hNow, Option.some.injEq] at hStep
    subst hStep
    exact read_step i fun pid t => ⟨rfl, rfl, (nextSlot_killing c i).imp_right .inl⟩
  | _ => simp [hNow, Control.killing] at hControl

/-! ## The machine runs the two functions -/

/-- Without a SIGINT, the process gets from one state to another. -/
def Reaches (P : Config) (garbage : Nat → Int) (s s' : State) : Prop :=
  ∃ as, .sigint ∉ as ∧ (process P garbage).exec s as = some s'

theorem Reaches.refl (s : State) : Reaches P garbage s s := ⟨[], List.not_mem_nil, rfl⟩

theorem Reaches.head {s t s' : State} {a : Act} (hStep : step P garbage s a = some t)
    (hSigint : a ≠ .sigint) (hReaches : Reaches P garbage t s') : Reaches P garbage s s' := by
  obtain ⟨as, hNone, hExec⟩ := hReaches
  refine ⟨a :: as, by simp [hSigint.symm, hNone], ?_⟩
  exact Option.bind_eq_some_iff.mpr ⟨t, hStep, hExec⟩

theorem Reaches.tick {s t s' : State} (hStep : step P garbage s .tick = some t)
    (hReaches : Reaches P garbage t s') : Reaches P garbage s s' :=
  hReaches.head hStep (by simp)

theorem Reaches.trans {s t s' : State} (hFirst : Reaches P garbage s t)
    (hSecond : Reaches P garbage t s') : Reaches P garbage s s' := by
  obtain ⟨as, hNone, hExec⟩ := hFirst
  obtain ⟨bs, hNone', hExec'⟩ := hSecond
  refine ⟨as ++ bs, by simp [hNone, hNone'], ?_⟩
  rw [Machine.exec_append, hExec]
  exact hExec'

/-- One round of the loop: the calls on the entry, and then the next one or the end. -/
theorem reaches_round {caller : Caller} {pids : List Int} {i : Nat} {s : State}
    (hControl : s.control = .killTest caller i) (hTable : s.cpuPids = .allocated pids) :
    ∃ t, Reaches P garbage s t ∧ t.cpuPids = s.cpuPids ∧
      if P.program.selects (slot pids i) = true then
        if P.endedBy (slot pids i) = true then
          t.control = .killed ∧ t.calls = s.calls ++ [.kill (slot pids i)]
        else t.control = nextSlot caller i ∧
          t.calls = s.calls ++ [.kill (slot pids i), .waitid (slot pids i)]
      else t.control = nextSlot caller i ∧ t.calls = s.calls := by
  by_cases hGuard : P.program.selects (slot pids i) = true
  · let s₁ : State := { s with
      control := .killSend caller i, uses := s.uses ++ [.read true] }
    have hTest : step P garbage s .tick = some s₁ := by
      simp [step, hControl, read_eq_of_allocated hTable, hGuard, s₁]
    by_cases hEnded : P.endedBy (slot pids i) = true
    · let s₂ : State := { s₁ with
        control := .killed, uses := s₁.uses ++ [.read true]
        calls := s.calls ++ [.kill (slot pids i)] }
      have hSend : step P garbage s₁ .tick = some s₂ := by
        simp [step, read_eq_of_allocated (s := s₁) hTable, hEnded, s₁, s₂]
      refine ⟨s₂, .tick hTest (.tick hSend (.refl s₂)), rfl, ?_⟩
      rw [if_pos hGuard, if_pos hEnded]
      exact ⟨rfl, rfl⟩
    · let s₂ : State := { s₁ with
        control := .killWait caller i, uses := s₁.uses ++ [.read true]
        calls := s.calls ++ [.kill (slot pids i)] }
      have hSend : step P garbage s₁ .tick = some s₂ := by
        simp [step, read_eq_of_allocated (s := s₁) hTable, hEnded, s₁, s₂]
      let s₃ : State := { s₂ with
        control := nextSlot caller i, uses := s₂.uses ++ [.read true]
        calls := s.calls ++ [.kill (slot pids i), .waitid (slot pids i)] }
      have hWait : step P garbage s₂ .tick = some s₃ := by
        simp [step, read_eq_of_allocated (s := s₂) hTable, s₂, s₃]
      refine ⟨s₃, .tick hTest (.tick hSend (.tick hWait (.refl s₃))), rfl, ?_⟩
      rw [if_pos hGuard, if_neg hEnded]
      exact ⟨rfl, rfl⟩
  · let s₁ : State := { s with
      control := nextSlot caller i, uses := s.uses ++ [.read true] }
    have hTest : step P garbage s .tick = some s₁ := by
      simp [step, hControl, read_eq_of_allocated hTable, hGuard, s₁]
    refine ⟨s₁, .tick hTest (.refl s₁), rfl, ?_⟩
    rw [if_neg hGuard]
    exact ⟨rfl, rfl⟩

/-- Left alone, `cpu_consume_kill` makes the calls of `killLoop` and goes on to its end, or the
process ends. -/
theorem reaches_killLoop {caller : Caller} {pids : List Int} (m : Nat) {i : Nat} {s : State}
    (hControl : s.control = .killTest caller i) (hTable : s.cpuPids = .allocated pids)
    (hLength : pids.length = maxTasks) (hSlots : i + (m + 1) = maxTasks) :
    ∃ s', Reaches P garbage s s' ∧ s'.cpuPids = s.cpuPids ∧
      s'.calls = s.calls ++ (killLoop P (pids.drop i)).1 ∧
      s'.control = if (killLoop P (pids.drop i)).2 then afterKill caller else .killed := by
  -- The rest of the loop, from the end of the body on.
  have hRest : ∀ t : State, t.control = nextSlot caller i → t.cpuPids = s.cpuPids →
      ∃ s', Reaches P garbage t s' ∧ s'.cpuPids = s.cpuPids ∧
        s'.calls = t.calls ++ (killLoop P (pids.drop (i + 1))).1 ∧
        s'.control =
          if (killLoop P (pids.drop (i + 1))).2 then afterKill caller else .killed := by
    intro t hNext hSame
    cases m with
    | zero =>
      have hDone : pids.drop (i + 1) = [] := List.drop_eq_nil_of_le (by omega)
      have hLast : ¬ i + 1 < maxTasks := by omega
      refine ⟨t, .refl t, hSame, ?_, ?_⟩
      · simp [hDone, killLoop]
      · simp [hDone, killLoop, hNext, nextSlot, hLast]
    | succ m =>
      have hMore : i + 1 < maxTasks := by omega
      have hTest : t.control = .killTest caller (i + 1) := by simp [hNext, nextSlot, hMore]
      obtain ⟨s', hReaches, hPids, hCalls, hEnd⟩ :=
        reaches_killLoop m hTest (hSame.trans hTable) hLength (by omega)
      exact ⟨s', hReaches, hPids.trans hSame, hCalls, hEnd⟩
  have hIndex : i < pids.length := by omega
  have hDrop : pids.drop i = slot pids i :: pids.drop (i + 1) := by
    rw [List.drop_eq_getElem_cons hIndex]
    simp [slot, hIndex]
  obtain ⟨t, hRound, hSame, hBody⟩ := reaches_round hControl hTable
  rw [hDrop, killLoop]
  split_ifs at hBody with hGuard hEnded
  · refine ⟨t, hRound, hSame, ?_, ?_⟩
    · simp [hGuard, hEnded, hBody.2]
    · simp [hGuard, hEnded, hBody.1]
  · obtain ⟨s', hReaches, hPids, hCalls, hEnd⟩ := hRest t hBody.1 hSame
    refine ⟨s', hRound.trans hReaches, hPids, ?_, ?_⟩
    · simp [hGuard, hEnded, hCalls, hBody.2]
    · simp [hGuard, hEnded, hEnd]
  · obtain ⟨s', hReaches, hPids, hCalls, hEnd⟩ := hRest t hBody.1 hSame
    refine ⟨s', hRound.trans hReaches, hPids, ?_, ?_⟩
    · simp [hGuard, hCalls, hBody.2]
    · simp [hGuard, hEnd]

/-- The fork loop fills the table of `startLoop`, and its end or a failed `fork` lead on. -/
theorem reaches_startLoop (forks : Nat → ForkResult) (m : Nat) {i : Nat} {pids : List Int}
    {s : State} (hControl : s.control = .fork i) (hTable : s.cpuPids = .allocated pids)
    (hTasks : i + (m + 1) = maxTasks) :
    ∃ s', Reaches P garbage s s' ∧ s'.calls = s.calls ∧
      s'.cpuPids = .allocated (startLoop forks pids i (m + 1)).1 ∧
      s'.control = if (startLoop forks pids i (m + 1)).2 then .tests
        else .killTest (.complete .inStart) 0 := by
  rw [startLoop]
  cases hFork : forks i with
  | failed =>
    let s₁ : State := { s with control := .killTest (.complete .inStart) 0 }
    have hFailed : step P garbage s (.fork .failed) = some s₁ := by simp [step, hControl, s₁]
    exact ⟨s₁, .head hFailed (by simp) (.refl s₁), rfl, hTable, by simp [s₁]⟩
  | child pid =>
    let s₁ : State := { s with control := .store i pid }
    have hChild : step P garbage s (.fork (.child pid)) = some s₁ := by simp [step, hControl, s₁]
    let s₂ : State := { s₁ with
      control := if i + 1 < maxTasks then .fork (i + 1) else .tests
      cpuPids := .allocated (pids.set i pid.val) }
    have hStore : step P garbage s₁ .tick = some s₂ := by
      simp [step, s₁, s₂, hTable, Table.store]
    have hTwo : ∀ {s'}, Reaches P garbage s₂ s' → Reaches P garbage s s' := fun hReaches =>
      .head hChild (by simp) (.tick hStore hReaches)
    cases m with
    | zero =>
      have hLast : ¬ i + 1 < maxTasks := by omega
      exact ⟨s₂, hTwo (.refl s₂), rfl, by simp [startLoop, s₂], by simp [startLoop, s₂, hLast]⟩
    | succ m =>
      have hMore : i + 1 < maxTasks := by omega
      have hNext : s₂.control = .fork (i + 1) := by simp [s₂, hMore]
      have hSet : s₂.cpuPids = .allocated (pids.set i pid.val) := rfl
      obtain ⟨s', hReaches, hCalls, hPids, hEnd⟩ :=
        reaches_startLoop forks m hNext hSet (by omega)
      exact ⟨s', hTwo hReaches, hCalls, hPids, hEnd⟩

/-- The first call of `cpu_consume_kill` in a run of `main` without a SIGINT, wherever it is
made from, is the one of `cpuConsumeKill` on the table of `cpuConsumeStart`. -/
theorem reaches_cpuConsumeKill (P : Config) (garbage : Nat → Int) (forks : Nat → ForkResult) :
    ∃ s, Reaches P garbage State.start s ∧
      s.cpuPids = .allocated (cpuConsumeStart forks).1 ∧
      s.calls = (P.cpuConsumeKill (cpuConsumeStart forks).1).1 := by
  let s₀ : State :=
    ⟨.signal, .allocated (List.replicate maxTasks 0), false, [], []⟩
  let s₁ : State := { s₀ with control := .fork 0, handler := true }
  have hCalloc : step P garbage State.start (.calloc true) = some s₀ := rfl
  have hSignal : step P garbage s₀ .tick = some s₁ := rfl
  obtain ⟨s₂, hForks, hCalls, hPids, hControl⟩ :=
    reaches_startLoop (P := P) forks 63 (s := s₁) rfl rfl rfl
  have hStarted : Reaches P garbage State.start s₂ :=
    .head hCalloc (by simp) (.tick hSignal hForks)
  have hLength : (cpuConsumeStart forks).1.length = maxTasks := by
    rw [cpuConsumeStart, startLoop_length, List.length_replicate]
  have hKill : P.cpuConsumeKill (cpuConsumeStart forks).1 =
      killLoop P (cpuConsumeStart forks).1 := by
    obtain ⟨program, usr1Ends⟩ := P
    cases program <;> rfl
  -- Either all tasks have been started and `main` completes, or `cpu_consume_start` does.
  have hTest : ∃ site s₃, Reaches P garbage State.start s₃ ∧
      s₃.control = .killTest (.complete site) 0 ∧ s₃.cpuPids = s₂.cpuPids ∧
      s₃.calls = s₂.calls := by
    by_cases hAll : (cpuConsumeStart forks).2 = true
    · have hTests : s₂.control = .tests := by
        rw [hControl]
        exact if_pos hAll
      let s₃ : State := { s₂ with control := .killTest (.complete .inMain) 0 }
      have hMain : step P garbage s₂ .tick = some s₃ := by simp [step, hTests, s₃]
      exact ⟨.inMain, s₃, hStarted.trans (.tick hMain (.refl s₃)), rfl, rfl, rfl⟩
    · refine ⟨.inStart, s₂, hStarted, ?_, rfl, rfl⟩
      rw [hControl]
      exact if_neg hAll
  obtain ⟨site, s₃, hReached, hNow, hSame, hNone⟩ := hTest
  obtain ⟨s₄, hKilled, hStill, hMade, -⟩ :=
    reaches_killLoop 63 hNow (hSame.trans hPids) hLength rfl
  refine ⟨s₄, hReached.trans hKilled, hStill.trans (hSame.trans hPids), ?_⟩
  rw [hMade, hNone, hCalls, hKill]
  rfl

end

end DebugCode.CpuLoad
