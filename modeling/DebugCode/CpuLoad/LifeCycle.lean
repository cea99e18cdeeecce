import DebugCode.CpuLoad.Process

/-!
# The life cycle of the pid table

* `run_phase`: every reachable state is in one of the phases of the table's life.
* `cpuPids_sound_iff`: the table is only read while it is allocated, and freed at most once,
  when either nothing goes wrong, or a SIGINT arrives while the table is allocated, or hz-test
  ends itself after a failed `fork`; the runs that end in another way break it.
-/

namespace DebugCode.CpuLoad

open Lib

/-! ## What the life cycle asks, and when it is kept -/

/-- `cpu_consume_kill` has read the table only while it was allocated, and it has been freed at
most once. -/
structure State.Sound (s : State) : Prop where
  reads : .read false ∉ s.uses
  frees : s.uses.count .free ≤ 1

/-- No failure and no SIGINT. -/
def Undisturbed (ps : List (State × Act)) : Prop :=
  ∀ p ∈ ps, p.2 ≠ .calloc false ∧ p.2 ≠ .fork .failed ∧ p.2 ≠ .sigint

/-- A SIGINT arrives while the table is allocated. -/
def InterruptedInTime (ps : List (State × Act)) : Prop :=
  ∃ p ∈ ps, p.2 = .sigint ∧ p.1.cpuPids.isAllocated = true

/-- A `fork` fails, so that the table has an empty slot. -/
def ForkFailed (ps : List (State × Act)) : Prop := ∃ p ∈ ps, p.2 = .fork .failed

/-- An empty slot makes `cpu_consume_kill` signal pid 0, which ends the caller. -/
def Config.EndsItself (P : Config) : Prop := P.program = .hzTest ∧ P.usr1Ends = true

def LifeCycleKept (P : Config) (ps : List (State × Act)) : Prop :=
  Undisturbed ps ∨ InterruptedInTime ps ∨ (P.EndsItself ∧ ForkFailed ps)

section

variable {ps : List (State × Act)} {s : State} {a : Act}

theorem undisturbed_snoc :
    Undisturbed (ps ++ [(s, a)]) ↔
      Undisturbed ps ∧ a ≠ .calloc false ∧ a ≠ .fork .failed ∧ a ≠ .sigint := by
  simp only [Undisturbed, List.forall_mem_append, List.forall_mem_singleton]

theorem interruptedInTime_snoc :
    InterruptedInTime (ps ++ [(s, a)]) ↔
      InterruptedInTime ps ∨ (a = .sigint ∧ s.cpuPids.isAllocated = true) := by
  simp [InterruptedInTime, or_and_right, exists_or]

theorem forkFailed_snoc : ForkFailed (ps ++ [(s, a)]) ↔ ForkFailed ps ∨ a = .fork .failed := by
  simp [ForkFailed, or_and_right, exists_or]

/-- Once the run has broken the condition, neither a tick nor a late SIGINT mends it. -/
theorem lifeCycleKept_of_snoc {P : Config} (hAllocated : s.cpuPids.isAllocated = false)
    (hFork : a ≠ .fork .failed) (hKept : LifeCycleKept P (ps ++ [(s, a)])) :
    LifeCycleKept P ps := by
  obtain hCalm | hTime | ⟨hEnds, hFailed⟩ := hKept
  · exact .inl (undisturbed_snoc.mp hCalm).1
  · rw [interruptedInTime_snoc] at hTime
    obtain hTime | ⟨-, hNow⟩ := hTime
    · exact .inr (.inl hTime)
    · rw [hAllocated] at hNow
      cases hNow
  · rw [forkFailed_snoc] at hFailed
    obtain hFailed | hNow := hFailed
    · exact .inr (.inr ⟨hEnds, hFailed⟩)
    · exact absurd hNow hFork

theorem Undisturbed.not_interrupted (hCalm : Undisturbed ps) : ¬ InterruptedInTime ps := by
  rintro ⟨p, hp, hSigint, -⟩
  exact (hCalm p hp).2.2 hSigint

theorem Undisturbed.not_forkFailed (hCalm : Undisturbed ps) : ¬ ForkFailed ps := by
  rintro ⟨p, hp, hFailed⟩
  exact (hCalm p hp).2.1 hFailed

end

/-! ## The phases of a run -/

/-- The table is allocated, and so it has been all the time. -/
structure State.Healthy (s : State) : Prop where
  allocated : s.cpuPids.isAllocated = true
  reads : .read false ∉ s.uses
  frees : .free ∉ s.uses

/-- An empty slot lies ahead of the loop of `cpu_consume_kill`. -/
def State.EmptyAhead (s : State) : Prop :=
  ∃ pids k, s.cpuPids = .allocated pids ∧
    ((s.control = .killSend (.complete .inStart) k ∧ slot pids k = 0) ∨
      ∃ i, s.control = .killTest (.complete .inStart) k ∧ k ≤ i ∧ i < maxTasks ∧
        slot pids i = 0)

/-- The slot that is about to be signalled has passed the guard. -/
def State.Selected (P : Config) (s : State) : Prop :=
  ∀ caller k pids, s.control = .killSend caller k → s.cpuPids = .allocated pids →
    P.program.selects (slot pids k) = true

/-- Where the table is in its life, and what led there. In the last two phases the table is
not allocated but is about to be read, or has been. -/
inductive Phase (P : Config) (ps : List (State × Act)) (s : State) : Prop
  | starting (hControl : s.control = .calloc ∧ s.cpuPids = .null ∨
      s.control = .signal ∧ s.cpuPids = .allocated (List.replicate maxTasks 0))
      (hHandler : s.handler = false) (hUses : s.uses = []) (hCalm : Undisturbed ps)
  | forking (i : Nat) (pids : List Int)
      (hControl : s.control = .fork i ∨ ∃ pid, s.control = .store i pid) (hTask : i < maxTasks)
      (hTable : s.cpuPids = .allocated pids) (hEmpty : ∀ k, i ≤ k → slot pids k = 0)
      (hUses : s.uses = []) (hCalm : Undisturbed ps)
  | testing (hControl : s.control = .tests ∨ s.control = .free .inMain ∨
      s.control.killing = some (.complete .inMain))
      (hHealthy : s.Healthy) (hCalm : Undisturbed ps)
  | failing (hControl : s.control = .free .inStart ∨
      s.control.killing = some (.complete .inStart))
      (hHealthy : s.Healthy) (hSelected : s.Selected P) (hEmpty : P.EndsItself → s.EmptyAhead)
      (hFailed : ForkFailed ps) (hTime : ¬ InterruptedInTime ps)
  | interrupted (hControl : s.control.killing = some .handler) (hHealthy : s.Healthy)
      (hTime : InterruptedInTime ps)
  | jitter (hControl : s.control = .jitter) (hTable : s.cpuPids.isAllocated = false)
      (hSound : s.Sound) (hCalm : Undisturbed ps)
  | ended (hControl : s.control.isEnd = true) (hSound : s.Sound) (hKept : LifeCycleKept P ps)
  | doomed (hControl : s.control = .tests ∨ s.control = .killTest (.complete .inMain) 0 ∨
      s.control = .killTest .handler 0)
      (hTable : s.cpuPids.isAllocated = false) (hSound : s.Sound)
      (hBroken : ¬ LifeCycleKept P ps)
  | stray (hControl : s.control.killing = some (.complete .inMain) ∨
      s.control.killing = some .handler ∨ s.control = .free .inMain ∨ s.control = .jitter ∨
      s.control.isEnd = true)
      (hTable : s.cpuPids.isAllocated = false) (hRead : .read false ∈ s.uses)
      (hBroken : ¬ LifeCycleKept P ps)

/-! ## Slots and guards -/

section

variable {P : Config} {garbage : Nat → Int} {s s' : State} {ps : List (State × Act)}

theorem State.Healthy.sound (hHealthy : s.Healthy) : s.Sound :=
  ⟨hHealthy.reads, by rw [List.count_eq_zero_of_not_mem hHealthy.frees]; omega⟩

theorem nextSlot_ne_killSend (caller c : Caller) (i k : Nat) :
    nextSlot caller i ≠ .killSend c k := by
  unfold nextSlot
  split
  · simp
  · cases caller <;> simp [afterKill]

theorem selects_zero_iff (program : Program) : program.selects 0 = true ↔ program = .hzTest := by
  cases program <;> simp [Program.selects]

theorem nextSlot_isEnd (site : Completion) (i : Nat) :
    (nextSlot (.complete site) i).isEnd = false := by
  unfold nextSlot
  split <;> rfl

/-- Only an empty slot that is signalled keeps `cpu_consume_complete` from its `free`. -/
theorem kill_step_selected {site : Completion} {pids : List Int}
    (hControl : s.control.killing = some (.complete site)) (hTable : s.cpuPids = .allocated pids)
    (hSelected : s.Selected P) (hStep : step P garbage s .tick = some s') :
    s'.Selected P ∧ (s'.control.isEnd = true → P.EndsItself) := by
  cases hNow : s.control with
  | killTest c i =>
    obtain rfl : c = .complete site := by simpa [hNow, Control.killing] using hControl
    simp only [step, hNow, Option.some.injEq, read_eq_of_allocated hTable] at hStep
    subst hStep
    split
    · next hGuard =>
      refine ⟨?_, by simp [Control.isEnd]⟩
      intro caller k pids' hSend hSame
      obtain ⟨-, rfl⟩ := Control.killSend.inj hSend
      obtain rfl := Table.allocated.inj (hTable.symm.trans hSame)
      exact hGuard
    · refine ⟨fun caller k _ hSend _ => absurd hSend (nextSlot_ne_killSend _ _ _ _), ?_⟩
      intro hEnd
      rw [nextSlot_isEnd] at hEnd
      cases hEnd
  | killSend c i =>
    have hGuard := hSelected c i pids hNow hTable
    simp only [step, hNow, Option.some.injEq, read_eq_of_allocated hTable] at hStep
    subst hStep
    refine ⟨?_, ?_⟩
    · intro caller k _ hSend _
      dsimp only at hSend
      split at hSend <;> cases hSend
    · dsimp only
      split
      · next hEnded =>
        intro _
        simp only [Config.endedBy, Bool.and_eq_true, beq_iff_eq] at hEnded
        rw [hEnded.1, selects_zero_iff] at hGuard
        exact ⟨hGuard, hEnded.2⟩
      · simp [Control.isEnd]
  | killWait c i =>
    obtain rfl : c = .complete site := by simpa [hNow, Control.killing] using hControl
    simp only [step, hNow, Option.some.injEq, read_eq_of_allocated hTable] at hStep
    subst hStep
    refine ⟨fun caller k _ hSend _ => absurd hSend (nextSlot_ne_killSend _ _ _ _), ?_⟩
    intro hEnd
    rw [nextSlot_isEnd] at hEnd
    cases hEnd
  | _ => simp [hNow, Control.killing] at hControl

/-- In hz-test the loop goes to the empty slot ahead, and there the process ends. -/
theorem emptyAhead_step (hEnds : P.EndsItself) (hEmpty : s.EmptyAhead)
    (hStep : step P garbage s .tick = some s') :
    s'.control.isEnd = true ∨ s'.EmptyAhead := by
  obtain ⟨hProgram, hUsr1⟩ := hEnds
  obtain ⟨pids, k, hTable, ⟨hNow, hZero⟩ | ⟨i, hNow, hLe, hTask, hZero⟩⟩ := hEmpty
  · simp only [step, hNow, Option.some.injEq, read_eq_of_allocated hTable] at hStep
    subst hStep
    left
    simp [Config.endedBy, hZero, hUsr1, Control.isEnd]
  · simp only [step, hNow, Option.some.injEq, read_eq_of_allocated hTable] at hStep
    subst hStep
    right
    by_cases hHere : slot pids k = 0
    · rw [if_pos (by rw [hHere, selects_zero_iff, hProgram])]
      exact ⟨pids, k, hTable, .inl ⟨rfl, hHere⟩⟩
    · have hBefore : k ≠ i := fun hSame => hHere (hSame ▸ hZero)
      have hMore : k + 1 < maxTasks := by omega
      rw [if_neg (by simp [hProgram, Program.selects, hHere])]
      refine ⟨pids, k + 1, hTable, .inr ⟨i, ?_, by omega, hTask, hZero⟩⟩
      simp only [nextSlot, hMore, if_true]

/-! ## Every step leads from phase to phase -/

@[simp] theorem Table.isAllocated_free (table : Table) : table.free.isAllocated = false := by
  cases table <;> rfl

theorem Table.isAllocated_iff (table : Table) :
    table.isAllocated = true ↔ ∃ pids, table = .allocated pids := by
  cases table <;> simp [Table.isAllocated]

theorem State.Healthy.read (hHealthy : s.Healthy) (hTable : s'.cpuPids = s.cpuPids)
    (hUses : s'.uses = s.uses ++ [.read s.cpuPids.isAllocated]) : s'.Healthy := by
  refine ⟨by rw [hTable]; exact hHealthy.allocated, ?_, ?_⟩
  · simpa [hUses, hHealthy.allocated] using hHealthy.reads
  · simpa [hUses] using hHealthy.frees

theorem State.Healthy.sound_free (hHealthy : s.Healthy)
    (hUses : s'.uses = s.uses ++ [.free]) : s'.Sound := by
  refine ⟨by simpa [hUses] using hHealthy.reads, ?_⟩
  rw [hUses, List.count_append, List.count_eq_zero_of_not_mem hHealthy.frees]
  simp

theorem phase_start : Phase P [] State.start :=
  .starting (.inl ⟨rfl, rfl⟩) rfl rfl (fun _ hp => absurd hp List.not_mem_nil)

theorem phase_calloc {success : Bool} (hPhase : Phase P ps s)
    (hStep : step P garbage s (.calloc success) = some s') :
    Phase P (ps ++ [(s, .calloc success)]) s' := by
  obtain ⟨hNow, hNext⟩ := calloc_step hStep
  cases hPhase with
  | starting hControl hHandler hUses hCalm =>
    obtain ⟨-, hNull⟩ : s.control = .calloc ∧ s.cpuPids = .null := by simpa [hNow] using hControl
    obtain ⟨rfl, rfl⟩ | ⟨rfl, rfl⟩ := hNext
    · refine .starting (.inr ⟨rfl, rfl⟩) hHandler hUses ?_
      simpa [undisturbed_snoc] using hCalm
    · refine .doomed (.inl rfl) (by simp [hNull, Table.isAllocated]) ⟨?_, ?_⟩ ?_
      · simp [hUses]
      · simp [hUses]
      · rintro (hBad | hTime | ⟨-, hFailed⟩)
        · simp [undisturbed_snoc] at hBad
        · exact hCalm.not_interrupted (by simpa [interruptedInTime_snoc] using hTime)
        · exact hCalm.not_forkFailed (by simpa [forkFailed_snoc] using hFailed)
  | _ => simp_all [Control.killing, Control.isEnd]

theorem phase_fork {result : ForkResult} (hPhase : Phase P ps s)
    (hStep : step P garbage s (.fork result) = some s') :
    Phase P (ps ++ [(s, .fork result)]) s' := by
  obtain ⟨i, hNow, hNext⟩ := fork_step hStep
  cases hPhase with
  | forking j pids hControl hTask hTable hEmpty hUses hCalm =>
    obtain rfl : i = j := by simpa [hNow] using hControl
    obtain ⟨pid, rfl, rfl⟩ | ⟨rfl, rfl⟩ := hNext
    · refine .forking i pids (.inr ⟨pid, rfl⟩) hTask hTable hEmpty hUses ?_
      simpa [undisturbed_snoc] using hCalm
    · refine .failing (.inr rfl) ⟨by simp [hTable, Table.isAllocated], ?_, ?_⟩ ?_ ?_ ?_ ?_
      · simp [hUses]
      · simp [hUses]
      · intro caller k _ hSend _
        cases hSend
      · intro _
        exact ⟨pids, 0, hTable, .inr ⟨i, rfl, Nat.zero_le i, hTask, hEmpty i (Nat.le_refl i)⟩⟩
      · simp [forkFailed_snoc]
      · simpa [interruptedInTime_snoc] using hCalm.not_interrupted
  | _ => simp_all [Control.killing, Control.isEnd]

theorem phase_sigint (hPhase : Phase P ps s) (hStep : step P garbage s .sigint = some s') :
    Phase P (ps ++ [(s, .sigint)]) s' := by
  obtain ⟨hHandler, hEnd, hKilling, rfl⟩ := sigint_step hStep
  -- A SIGINT finds the table allocated, and the run ends in the handler, or too late.
  have hInTime : s.Healthy → Phase P (ps ++ [(s, .sigint)])
      { s with control := .killTest .handler 0 } := fun hHealthy =>
    .interrupted rfl ⟨hHealthy.allocated, hHealthy.reads, hHealthy.frees⟩
      (interruptedInTime_snoc.mpr (.inr ⟨rfl, hHealthy.allocated⟩))
  cases hPhase with
  | starting hControl hNoHandler hUses hCalm =>
    rw [hNoHandler] at hHandler
    cases hHandler
  | forking i pids hControl hTask hTable hEmpty hUses hCalm =>
    exact hInTime ⟨by simp [hTable, Table.isAllocated], by simp [hUses], by simp [hUses]⟩
  | testing hControl hHealthy hCalm => exact hInTime hHealthy
  | failing hControl hHealthy hSelected hEmpty hFailed hTime => exact hInTime hHealthy
  | interrupted hControl hHealthy hTime => exact absurd hControl hKilling
  | jitter hControl hTable hSound hCalm =>
    refine .doomed (.inr (.inr rfl)) hTable ⟨hSound.reads, hSound.frees⟩ ?_
    rintro (hBad | hTime | ⟨-, hFailed⟩)
    · simp [undisturbed_snoc] at hBad
    · exact hCalm.not_interrupted (by simpa [interruptedInTime_snoc, hTable] using hTime)
    · exact hCalm.not_forkFailed (by simpa [forkFailed_snoc] using hFailed)
  | ended hControl hSound hKept =>
    rw [hEnd] at hControl
    cases hControl
  | doomed hControl hTable hSound hBroken =>
    exact .doomed (.inr (.inr rfl)) hTable ⟨hSound.reads, hSound.frees⟩
      fun hKept => hBroken (lifeCycleKept_of_snoc hTable (by simp) hKept)
  | stray hControl hTable hRead hBroken =>
    exact .stray (.inr (.inl rfl)) hTable hRead
      fun hKept => hBroken (lifeCycleKept_of_snoc hTable (by simp) hKept)

/-! ### Ticks, phase by phase -/

theorem tick_starting (hControl : s.control = .calloc ∧ s.cpuPids = .null ∨
      s.control = .signal ∧ s.cpuPids = .allocated (List.replicate maxTasks 0))
    (hUses : s.uses = []) (hCalm : Undisturbed (ps ++ [(s, .tick)]))
    (hStep : step P garbage s .tick = some s') : Phase P (ps ++ [(s, .tick)]) s' := by
  obtain ⟨hNow, -⟩ | ⟨hNow, hTable⟩ := hControl
  · simp [step, hNow] at hStep
  · simp only [step, hNow, Option.some.injEq] at hStep
    subst hStep
    refine .forking 0 _ (.inl rfl) (by decide) hTable ?_ hUses hCalm
    intro k _
    simp only [slot, List.getD_eq_getElem?_getD, List.getElem?_replicate]
    split <;> rfl

theorem slot_set_of_lt {i k : Nat} (hLt : i < k) (pids : List Int) (pid : Int) :
    slot (pids.set i pid) k = slot pids k := by
  have hNe : i ≠ k := by omega
  simp [slot, List.getElem?_set_ne hNe]

theorem tick_forking {i : Nat} {pids : List Int}
    (hControl : s.control = .fork i ∨ ∃ pid, s.control = .store i pid)
    (hTable : s.cpuPids = .allocated pids) (hEmpty : ∀ k, i ≤ k → slot pids k = 0)
    (hUses : s.uses = []) (hCalm : Undisturbed (ps ++ [(s, .tick)]))
    (hStep : step P garbage s .tick = some s') : Phase P (ps ++ [(s, .tick)]) s' := by
  obtain hNow | ⟨pid, hNow⟩ := hControl
  · simp [step, hNow] at hStep
  · simp only [step, hNow, Option.some.injEq] at hStep
    subst hStep
    by_cases hMore : i + 1 < maxTasks
    · refine .forking (i + 1) (pids.set i pid.val) (.inl (by simp [hMore])) hMore ?_ ?_ hUses hCalm
      · simp [hTable, Table.store]
      · intro k hLe
        rw [slot_set_of_lt (by omega)]
        exact hEmpty k (by omega)
    · refine .testing (.inl (by simp [hMore])) ⟨?_, by simp [hUses], by simp [hUses]⟩ hCalm
      simp [hTable, Table.store, Table.isAllocated]

theorem tick_testing (hControl : s.control = .tests ∨ s.control = .free .inMain ∨
      s.control.killing = some (.complete .inMain))
    (hHealthy : s.Healthy) (hCalm : Undisturbed (ps ++ [(s, .tick)]))
    (hStep : step P garbage s .tick = some s') : Phase P (ps ++ [(s, .tick)]) s' := by
  obtain hNow | hNow | hKilling := hControl
  · simp only [step, hNow, Option.some.injEq] at hStep
    subst hStep
    exact .testing (.inr (.inr rfl)) ⟨hHealthy.allocated, hHealthy.reads, hHealthy.frees⟩ hCalm
  · simp only [step, hNow, Option.some.injEq] at hStep
    subst hStep
    exact .jitter rfl (Table.isAllocated_free _) (hHealthy.sound_free rfl) hCalm
  · obtain ⟨hTable, hUses, hNext⟩ := kill_step hKilling hStep
    have hStill := hHealthy.read hTable hUses
    obtain hSame | hAfter | hEnd := hNext
    · exact .testing (.inr (.inr hSame)) hStill hCalm
    · exact .testing (.inr (.inl hAfter)) hStill hCalm
    · exact .ended hEnd hStill.sound (.inl hCalm)

theorem tick_failing (hControl : s.control = .free .inStart ∨
      s.control.killing = some (.complete .inStart))
    (hHealthy : s.Healthy) (hSelected : s.Selected P) (hEmpty : P.EndsItself → s.EmptyAhead)
    (hFailed : ForkFailed (ps ++ [(s, .tick)])) (hTime : ¬ InterruptedInTime (ps ++ [(s, .tick)]))
    (hStep : step P garbage s .tick = some s') : Phase P (ps ++ [(s, .tick)]) s' := by
  obtain hNow | hKilling := hControl
  · have hNotEnds : ¬ P.EndsItself := by
      intro hEnds
      obtain ⟨_, _, _, ⟨hSend, -⟩ | ⟨_, hTest, -⟩⟩ := hEmpty hEnds
      · rw [hNow] at hSend
        cases hSend
      · rw [hNow] at hTest
        cases hTest
    simp only [step, hNow, Option.some.injEq] at hStep
    subst hStep
    refine .doomed (.inl rfl) (Table.isAllocated_free _) (hHealthy.sound_free rfl) ?_
    rintro (hCalm | hInTime | ⟨hEnds, -⟩)
    · exact hCalm.not_forkFailed hFailed
    · exact hTime hInTime
    · exact hNotEnds hEnds
  · obtain ⟨hTable, hUses, hNext⟩ := kill_step hKilling hStep
    have hStill := hHealthy.read hTable hUses
    obtain ⟨pids, hPids⟩ := (Table.isAllocated_iff _).mp hHealthy.allocated
    obtain ⟨hSelected', hEnded⟩ := kill_step_selected hKilling hPids hSelected hStep
    by_cases hEnd : s'.control.isEnd = true
    · exact .ended hEnd hStill.sound (.inr (.inr ⟨hEnded hEnd, hFailed⟩))
    · refine .failing ?_ hStill hSelected' ?_ hFailed hTime
      · obtain hSame | hAfter | hOver := hNext
        · exact .inr hSame
        · exact .inl hAfter
        · exact absurd hOver hEnd
      · intro hEnds
        exact (emptyAhead_step hEnds (hEmpty hEnds) hStep).resolve_left hEnd

theorem tick_interrupted (hKilling : s.control.killing = some .handler) (hHealthy : s.Healthy)
    (hTime : InterruptedInTime (ps ++ [(s, .tick)]))
    (hStep : step P garbage s .tick = some s') : Phase P (ps ++ [(s, .tick)]) s' := by
  obtain ⟨hTable, hUses, hNext⟩ := kill_step hKilling hStep
  have hStill := hHealthy.read hTable hUses
  obtain hSame | hAfter | hEnd := hNext
  · exact .interrupted hSame hStill hTime
  · exact .ended (by rw [hAfter]; rfl) hStill.sound (.inr (.inl hTime))
  · exact .ended hEnd hStill.sound (.inr (.inl hTime))

/-- A read of a table that is not allocated. -/
theorem tick_stray_read {caller : Caller} (hCaller : caller ≠ .complete .inStart)
    (hKilling : s.control.killing = some caller) (hTable : s.cpuPids.isAllocated = false)
    (hBroken : ¬ LifeCycleKept P (ps ++ [(s, .tick)]))
    (hStep : step P garbage s .tick = some s') : Phase P (ps ++ [(s, .tick)]) s' := by
  obtain ⟨hSame, hUses, hNext⟩ := kill_step hKilling hStep
  refine .stray ?_ (by rw [hSame]; exact hTable) (by simp [hUses, hTable]) hBroken
  match caller, hCaller with
  | .handler, _ =>
    obtain hSame | hAfter | hEnd := hNext
    · exact .inr (.inl hSame)
    · exact .inr (.inr (.inr (.inr (by rw [hAfter]; rfl))))
    · exact .inr (.inr (.inr (.inr hEnd)))
  | .complete .inMain, _ =>
    obtain hSame | hAfter | hEnd := hNext
    · exact .inl hSame
    · exact .inr (.inr (.inl hAfter))
    · exact .inr (.inr (.inr (.inr hEnd)))

theorem tick_doomed (hControl : s.control = .tests ∨
      s.control = .killTest (.complete .inMain) 0 ∨ s.control = .killTest .handler 0)
    (hTable : s.cpuPids.isAllocated = false) (hSound : s.Sound)
    (hBroken : ¬ LifeCycleKept P (ps ++ [(s, .tick)]))
    (hStep : step P garbage s .tick = some s') : Phase P (ps ++ [(s, .tick)]) s' := by
  obtain hNow | hNow | hNow := hControl
  · simp only [step, hNow, Option.some.injEq] at hStep
    subst hStep
    exact .doomed (.inr (.inl rfl)) hTable ⟨hSound.reads, hSound.frees⟩ hBroken
  · have hKilling : s.control.killing = some (.complete .inMain) := by rw [hNow]; rfl
    exact tick_stray_read (by simp) hKilling hTable hBroken hStep
  · have hKilling : s.control.killing = some .handler := by rw [hNow]; rfl
    exact tick_stray_read (by simp) hKilling hTable hBroken hStep

theorem tick_end (hEnd : s.control.isEnd = true) : step P garbage s .tick = none := by
  cases hNow : s.control <;> simp_all [step, Control.isEnd]

theorem tick_stray (hControl : s.control.killing = some (.complete .inMain) ∨
      s.control.killing = some .handler ∨ s.control = .free .inMain ∨ s.control = .jitter ∨
      s.control.isEnd = true)
    (hTable : s.cpuPids.isAllocated = false) (hRead : .read false ∈ s.uses)
    (hBroken : ¬ LifeCycleKept P (ps ++ [(s, .tick)]))
    (hStep : step P garbage s .tick = some s') : Phase P (ps ++ [(s, .tick)]) s' := by
  obtain hKilling | hKilling | hNow | hNow | hEnd := hControl
  · exact tick_stray_read (by simp) hKilling hTable hBroken hStep
  · exact tick_stray_read (by simp) hKilling hTable hBroken hStep
  · simp only [step, hNow, Option.some.injEq] at hStep
    subst hStep
    exact .stray (.inr (.inr (.inr (.inl rfl)))) (Table.isAllocated_free _) (by simp [hRead])
      hBroken
  · simp only [step, hNow, Option.some.injEq] at hStep
    subst hStep
    exact .stray (.inr (.inr (.inr (.inr rfl)))) hTable hRead hBroken
  · rw [tick_end hEnd] at hStep
    cases hStep

theorem phase_tick (hPhase : Phase P ps s) (hStep : step P garbage s .tick = some s') :
    Phase P (ps ++ [(s, .tick)]) s' := by
  have hCalmNext : Undisturbed ps → Undisturbed (ps ++ [(s, .tick)]) := fun hCalm =>
    undisturbed_snoc.mpr ⟨hCalm, by simp, by simp, by simp⟩
  have hTimeNext : InterruptedInTime (ps ++ [(s, .tick)]) ↔ InterruptedInTime ps := by
    simp [interruptedInTime_snoc]
  cases hPhase with
  | starting hControl hHandler hUses hCalm =>
    exact tick_starting hControl hUses (hCalmNext hCalm) hStep
  | forking i pids hControl hTask hTable hEmpty hUses hCalm =>
    exact tick_forking hControl hTable hEmpty hUses (hCalmNext hCalm) hStep
  | testing hControl hHealthy hCalm => exact tick_testing hControl hHealthy (hCalmNext hCalm) hStep
  | failing hControl hHealthy hSelected hEmpty hFailed hTime =>
    exact tick_failing hControl hHealthy hSelected hEmpty (forkFailed_snoc.mpr (.inl hFailed))
      (fun h => hTime (hTimeNext.mp h)) hStep
  | interrupted hControl hHealthy hTime =>
    exact tick_interrupted hControl hHealthy (hTimeNext.mpr hTime) hStep
  | jitter hControl hTable hSound hCalm =>
    simp only [step, hControl, Option.some.injEq] at hStep
    subst hStep
    exact .ended rfl ⟨hSound.reads, hSound.frees⟩ (.inl (hCalmNext hCalm))
  | ended hControl hSound hKept =>
    rw [tick_end hControl] at hStep
    cases hStep
  | doomed hControl hTable hSound hBroken =>
    exact tick_doomed hControl hTable hSound
      (fun hKept => hBroken (lifeCycleKept_of_snoc hTable (by simp) hKept)) hStep
  | stray hControl hTable hRead hBroken =>
    exact tick_stray hControl hTable hRead
      (fun hKept => hBroken (lifeCycleKept_of_snoc hTable (by simp) hKept)) hStep

end

/-- Every run is in one of the phases. -/
theorem run_phase {P : Config} {garbage : Nat → Int} {ps : List (State × Act)} {s : State}
    (hRun : (process P garbage).Run ps s) : Phase P ps s := by
  refine Machine.Run.invariant (I := Phase P) phase_start ?_ hRun
  intro ps s a s' hPhase hNext
  have hStep : step P garbage s a = some s' := hNext
  cases a with
  | calloc success => exact phase_calloc hPhase hStep
  | fork result => exact phase_fork hPhase hStep
  | tick => exact phase_tick hPhase hStep
  | sigint => exact phase_sigint hPhase hStep

/-! ## The life cycle -/

/-- A run that has come to its end has kept the life cycle, or has read a table that was not
allocated. -/
theorem Phase.of_isEnd {P : Config} {ps : List (State × Act)} {s : State} (hPhase : Phase P ps s)
    (hEnd : s.control.isEnd = true) : LifeCycleKept P ps ∨ .read false ∈ s.uses := by
  cases hPhase with
  | ended _ _ hKept => exact .inl hKept
  | stray _ _ hRead _ => exact .inr hRead
  | starting hControl _ _ _ =>
    obtain ⟨hNow, -⟩ | ⟨hNow, -⟩ := hControl <;> simp [hNow, Control.isEnd] at hEnd
  | forking _ _ hControl _ _ _ _ _ =>
    obtain hNow | ⟨_, hNow⟩ := hControl <;> simp [hNow, Control.isEnd] at hEnd
  | testing hControl _ _ =>
    obtain hNow | hNow | hKilling := hControl
    · simp [hNow, Control.isEnd] at hEnd
    · simp [hNow, Control.isEnd] at hEnd
    · simp [Control.isEnd_of_killing hKilling] at hEnd
  | failing hControl _ _ _ _ _ =>
    obtain hNow | hKilling := hControl
    · simp [hNow, Control.isEnd] at hEnd
    · simp [Control.isEnd_of_killing hKilling] at hEnd
  | interrupted hKilling _ _ => simp [Control.isEnd_of_killing hKilling] at hEnd
  | jitter hNow _ _ _ => simp [hNow, Control.isEnd] at hEnd
  | doomed hControl _ _ _ =>
    obtain hNow | hNow | hNow := hControl <;> simp [hNow, Control.isEnd] at hEnd

theorem Phase.sound {P : Config} {ps : List (State × Act)} {s : State} (hPhase : Phase P ps s)
    (hKept : LifeCycleKept P ps) : s.Sound := by
  cases hPhase with
  | starting _ _ hUses _ => exact ⟨by simp [hUses], by simp [hUses]⟩
  | forking _ _ _ _ _ _ hUses _ => exact ⟨by simp [hUses], by simp [hUses]⟩
  | testing _ hHealthy _ => exact hHealthy.sound
  | failing _ hHealthy _ _ _ _ => exact hHealthy.sound
  | interrupted _ hHealthy _ => exact hHealthy.sound
  | jitter _ _ hSound _ => exact hSound
  | ended _ hSound _ => exact hSound
  | doomed _ _ hSound _ => exact hSound
  | stray _ _ _ hBroken => exact absurd hKept hBroken

/-- The life cycle of the table is kept in every run that meets the condition, and broken in
every other run that comes to its end. -/
theorem cpuPids_sound_iff (P : Config) (garbage : Nat → Int) (ps : List (State × Act)) (s : State)
    (hRun : (process P garbage).Run ps s) :
    (LifeCycleKept P ps → s.Sound) ∧ (s.control.isEnd = true → s.Sound → LifeCycleKept P ps) := by
  have hPhase := run_phase hRun
  refine ⟨hPhase.sound, fun hEnd hSound => ?_⟩
  obtain hKept | hRead := hPhase.of_isEnd hEnd
  · exact hKept
  · exact absurd hRead hSound.reads

/-- A SIGINT right after the handler is installed ends hz-test: its handler signals pid 0. -/
theorem cpuPids_sound_interrupted :
    ∃ ps s, (process ⟨.hzTest, true⟩ fun _ => 0).Run ps s ∧ s.control = .killed ∧
      LifeCycleKept ⟨.hzTest, true⟩ ps := by
  obtain ⟨ps, -, hRun⟩ := Machine.Run.of_exec (M := process ⟨.hzTest, true⟩ fun _ => 0)
    (s := ⟨.killed, .allocated (List.replicate 64 0), true, [.read true, .read true], [.kill 0]⟩)
    [.calloc true, .tick, .sigint, .tick, .tick] rfl
  exact ⟨ps, _, hRun, rfl, (cpuPids_sound_iff _ _ ps _ hRun).2 rfl ⟨by decide, by decide⟩⟩

set_option maxRecDepth 4000 in
/-- In latency-test with a first `fork` that fails, `cpu_consume_complete` is called twice: the
freed table is read, and freed again. -/
theorem cpuPids_freed_twice :
    ∃ ps s, (process ⟨.latencyTest, true⟩ fun _ => 0).Run ps s ∧ s.control = .exited ∧
      ¬ s.Sound ∧ s.uses.count .free = 2 := by
  obtain ⟨ps, -, hRun⟩ := Machine.Run.of_exec (M := process ⟨.latencyTest, true⟩ fun _ => 0)
    (s := ⟨.exited, .freed, true, List.replicate 64 (.read true) ++ [.free] ++
      List.replicate 64 (.read false) ++ [.free], []⟩)
    ([.calloc true, .tick, .fork .failed] ++ List.replicate 132 .tick) rfl
  exact ⟨ps, _, hRun, rfl, fun hSound => hSound.reads (by decide), by decide⟩

end DebugCode.CpuLoad
