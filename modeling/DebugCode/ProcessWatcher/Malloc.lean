import DebugCode.ProcessWatcher.Summary

/-!
# What the reports owe to `malloc`

The tables come from `malloc` and are not cleared, apart from the PIDs. The active flag of
a slot is only ever set, the totals of the summary are added to, and a cell of the sample
matrix is written only when its process was parsed in that very sample, with a difference
to whatever the slot held before.

* `replay_cells_determined`, `replay_cells_ne`: a cell is independent of the memory exactly
  when the last line parsed for it follows another line of the process.
* `report_independent_iff`: the reports are independent of the memory exactly when they are
  never made, or when only `-p` is given, every slot belongs to a process that is seen busy
  between two lines, and every cell printed is such a difference.
-/

namespace DebugCode.ProcessWatcher

open Lib

namespace Column

/-- The cell of sample `s` ends up as the difference of two successive lines. -/
def Covered (ps : Parses) (s : Nat) : Prop :=
  ∃ (before : Parses) (x y : Int × Stat) (after : Parses),
    ps = before ++ x :: y :: after ∧ y.1 = (s : Int) ∧ ∀ z ∈ after, z.1 ≠ (s : Int)

/-- In some sample the process has used time since its line before. -/
def Busy (ps : Parses) : Prop :=
  ∃ (before : Parses) (x y : Int × Stat) (after : Parses),
    ps = before ++ x :: y :: after ∧ y.1 ≠ -1 ∧
      0 < (y.2.usr - x.2.usr) + (y.2.sys - x.2.sys)

theorem replay_two (c : Column) (before after : Parses) (x y : Int × Stat) :
    c.replay (before ++ x :: y :: after) =
      ((((c.replay before).record x.1 x.2).record y.1 y.2)).replay after := by
  rw [replay_append, replay_cons, replay_cons]

/-! ## The active flag -/

theorem replay_active (ps : Parses) {c : Column} (h : c.info.active = true) :
    (c.replay ps).info.active = true := by
  induction ps generalizing c with
  | nil => exact h
  | cons p ps ih =>
    apply ih
    simp [record, ProcessInfo.record, h]

theorem replay_active_of_busy {ps : Parses} (h : Busy ps) (c : Column) :
    (c.replay ps).info.active = true := by
  obtain ⟨before, x, y, after, rfl, hSample, hTime⟩ := h
  rw [replay_two]
  apply replay_active
  have hUsr : ((c.replay before).record x.1 x.2).info.usr = x.2.usr := rfl
  have hSys : ((c.replay before).record x.1 x.2).info.sys = x.2.sys := rfl
  rw [record, ProcessInfo.record, hUsr, hSys]
  simp [hSample, hTime]

theorem Busy.ne_nil {ps : Parses} (h : Busy ps) : ps ≠ [] := by
  obtain ⟨before, x, y, after, rfl, -⟩ := h
  simp

theorem Busy.cons {ps : Parses} (h : Busy ps) (p : Int × Stat) : Busy (p :: ps) := by
  obtain ⟨before, x, y, after, rfl, hRest⟩ := h
  exact ⟨p :: before, x, y, after, rfl, hRest⟩

/-- A flag that comes up although the first line shows no progress comes from a later one. -/
theorem busy_of_replay_active {ps : Parses} {x : Int × Stat} {c : Column}
    (hOff : c.info.active = false) (hUsr : c.info.usr = x.2.usr) (hSys : c.info.sys = x.2.sys)
    (h : (c.replay ps).info.active = true) : Busy (x :: ps) := by
  induction ps generalizing c x with
  | nil =>
    rw [replay_nil, hOff] at h
    cases h
  | cons y ps ih =>
    cases hActive : (c.record y.1 y.2).info.active with
    | false => exact (ih hActive rfl rfl h).cons x
    | true =>
      rw [record, ProcessInfo.record, hOff, hUsr, hSys] at hActive
      simp only [Bool.false_or, Bool.and_eq_true, decide_eq_true_eq] at hActive
      exact ⟨[], x, y, ps, rfl, hActive.1, hActive.2⟩

/-- A column with the given flag and counters. -/
def plain (active : Bool) (usr sys : UInt32) : Column :=
  ⟨⟨-1, usr, sys, 0, 0, 0, 0, active, []⟩, fun _ => ⟨usr, sys⟩⟩

/-- A column whose counters are those of the first line. -/
def quiet : Parses → Column
  | [] => plain false 0 0
  | x :: _ => plain false x.2.usr x.2.sys

theorem busy_of_quiet {ps : Parses} (h : ((quiet ps).replay ps).info.active = true) :
    Busy ps := by
  cases ps with
  | nil => cases h
  | cons x ps =>
    have hOff : ((quiet (x :: ps)).record x.1 x.2).info.active = false := by
      simp [quiet, plain, record, ProcessInfo.record]
    exact busy_of_replay_active hOff rfl rfl h

/-! ## The cells -/

/-- A line of another sample leaves the cell alone. -/
theorem record_cells_of_ne {p : Int × Stat} {s : Nat} (hStart : -1 ≤ p.1) (hOther : p.1 ≠ s)
    (c : Column) : (c.record p.1 p.2).cells s = c.cells s := by
  unfold record
  by_cases hBase : p.1 = -1
  · simp [hBase]
  · have hIndex : s ≠ p.1.toNat := by omega
    simp [hBase, Function.update_of_ne hIndex]

theorem record_cells_self {p : Int × Stat} {s : Nat} (hSample : p.1 = s) (c : Column) :
    (c.record p.1 p.2).cells s = c.info.delta p.2 := by
  have hBase : (s : Int) ≠ -1 := by omega
  simp [record, hSample, hBase]

theorem replay_cells_of_ne {ps : Parses} {s : Nat} (hStart : ∀ p ∈ ps, -1 ≤ p.1)
    (hOther : ∀ p ∈ ps, p.1 ≠ s) (c : Column) : (c.replay ps).cells s = c.cells s := by
  induction ps generalizing c with
  | nil => rfl
  | cons p ps ih =>
    rw [replay_cons, ih (fun q hq => hStart q (List.mem_cons_of_mem _ hq))
      (fun q hq => hOther q (List.mem_cons_of_mem _ hq)),
      record_cells_of_ne (hStart p List.mem_cons_self) (hOther p List.mem_cons_self)]

theorem replay_cells_determined {ps : Parses} {s : Nat} (hStart : ∀ p ∈ ps, -1 ≤ p.1)
    (h : Covered ps s) (c c' : Column) : (c.replay ps).cells s = (c'.replay ps).cells s := by
  obtain ⟨before, x, y, after, rfl, hSample, hOther⟩ := h
  have hAfter : ∀ p ∈ after, -1 ≤ p.1 := fun p hp => hStart p (by simp [hp])
  rw [replay_two, replay_two, replay_cells_of_ne hAfter hOther, replay_cells_of_ne hAfter hOther,
    record_cells_self hSample, record_cells_self hSample]
  rfl

theorem Covered.snoc {ps : Parses} {s : Nat} (h : Covered ps s) {y : Int × Stat}
    (hOther : y.1 ≠ s) : Covered (ps ++ [y]) s := by
  obtain ⟨before, x, z, after, rfl, hSample, hRest⟩ := h
  refine ⟨before, x, z, after ++ [y], by simp, hSample, ?_⟩
  intro p hp
  rcases List.mem_append.mp hp with hp | hp
  · exact hRest p hp
  · rw [List.mem_singleton.mp hp]
    exact hOther

/-- A cell that is not covered keeps a difference of the start in the cell or the counter.
The induction takes the last line off. -/
theorem replay_cells_ne {ps : Parses} {s : Nat} (hStart : ∀ p ∈ ps, -1 ≤ p.1)
    (h : ¬ Covered ps s) {c c' : Column} (hCells : c.cells s ≠ c'.cells s)
    (hUsr : c.info.usr ≠ c'.info.usr) : (c.replay ps).cells s ≠ (c'.replay ps).cells s := by
  induction ps using List.reverseRecOn with
  | nil => exact hCells
  | append_singleton qs y ih =>
    rw [replay_append, replay_append, replay_cons, replay_cons, replay_nil, replay_nil]
    by_cases hSample : y.1 = s
    · rcases List.eq_nil_or_concat' qs with rfl | ⟨before, x, rfl⟩
      · rw [record_cells_self hSample, record_cells_self hSample]
        intro hSame
        have hDelta := congrArg Sample.deltaUsr hSame
        simp only [ProcessInfo.delta, replay_nil] at hDelta
        exact hUsr (by grind)
      · exact absurd ⟨before, x, y, [], by simp, hSample, by simp⟩ h
    · have hLast := hStart y (by simp)
      rw [record_cells_of_ne hLast hSample, record_cells_of_ne hLast hSample]
      exact ih (fun p hp => hStart p (by simp [hp])) (fun hCov => h (hCov.snoc hSample))

/-! ## The name and the totals -/

theorem replay_name {ps : Parses} (h : ps ≠ []) (c c' : Column) :
    (c.replay ps).info.name = (c'.replay ps).info.name := by
  rcases List.eq_nil_or_concat' ps with rfl | ⟨qs, y, rfl⟩
  · exact absurd rfl h
  · rw [replay_append, replay_append]
    rfl

theorem replay_totalUsr (ps : Parses) (c : Column) :
    (c.replay ps).info.totalUsr = c.info.totalUsr := by
  induction ps generalizing c with
  | nil => rfl
  | cons p ps ih => exact ih (c.record p.1 p.2)

def withTotal (t : UInt32) (c : Column) : Column :=
  { c with info := { c.info with totalUsr := t } }

theorem replay_withTotal (t : UInt32) (ps : Parses) (c : Column) :
    (c.withTotal t).replay ps = (c.replay ps).withTotal t := by
  induction ps generalizing c with
  | nil => rfl
  | cons p ps ih =>
    rw [replay_cons, replay_cons, ← ih]
    rfl

end Column

/-! ## Runs from different memory -/

theorem parses_free (vs : List Visit) : parses (-1) vs = [] := by
  by_contra hSome
  have hNonneg := pids_nonneg (mem_pids_of_parses hSome)
  omega

/-- After a run every slot is the replay of the lines of the PID it ends up with. -/
theorem column_history {fuel : Nat} {vs : List Visit} {mem final : Tables}
    (hRun : runVisits fuel vs (initPids mem) = some final) {i : Nat} (hi : i < processInfoSize) :
    final.column i = ((mem.column i).replay (parses (final.processInfo i).pid vs)).setPid
      (final.processInfo i).pid := by
  cases hHeld : slots final i with
  | some pid =>
    have hMem : pid ∈ pids vs := by
      have hHolds := (runVisits_start_invariant hRun).2 pid
      exact List.mem_toFinset.mp (hHolds.mpr ⟨i, hi, hHeld⟩)
    rw [(slots_eq_some_iff (pids_nonneg hMem)).mp hHeld]
    exact column_final hRun hi hHeld
  | none =>
    rw [slots_eq_none_iff.mp hHeld, parses_free, Column.replay_nil,
      column_run_free (tableInv_initPids mem) hRun hHeld, column_initPids mem hi]

/-- A run with the PID every slot has at its end. -/
structure PlacedRun (fuel : Nat) (vs : List Visit) (pid : Nat → Int) (mem final : Tables) :
    Prop where
  run : runVisits fuel vs (initPids mem) = some final
  placed : ∀ i < processInfoSize, (final.processInfo i).pid = pid i

/-- The slots go to the same PIDs whatever the memory holds. -/
theorem PlacedRun.other {fuel : Nat} {vs : List Visit} {pid : Nat → Int} {mem final : Tables}
    (h : PlacedRun fuel vs pid mem final) (mem' : Tables) :
    ∃ final', PlacedRun fuel vs pid mem' final' := by
  have hSlots := runVisits_slots fuel vs (initPids mem)
  have hSlots' := runVisits_slots fuel vs (initPids mem')
  rw [h.run, Option.map_some] at hSlots
  have hFree : ∀ i < processInfoSize, slots (initPids mem) i = slots (initPids mem') i := by
    intro i hi
    rw [slots_initPids mem hi, slots_initPids mem' hi]
  obtain ⟨other, hOther, hSame⟩ :=
    Probe.insertAll_congr processInfoSize_pos pidHash_lt hFree hSlots.symm
  rw [hOther] at hSlots'
  obtain ⟨final', hRun', rfl⟩ := Option.map_eq_some_iff.mp hSlots'
  refine ⟨final', hRun', ?_⟩
  intro i hi
  rw [← h.placed i hi, pid_eq_getD, pid_eq_getD, hSame i hi]

theorem placedRun_self {fuel : Nat} {vs : List Visit} {mem final : Tables}
    (hRun : runVisits fuel vs (initPids mem) = some final) :
    PlacedRun fuel vs (fun i => (final.processInfo i).pid) mem final :=
  ⟨hRun, fun _ _ => rfl⟩

section

variable {fuel : Nat} {vs : List Visit} {pid : Nat → Int} {mem final : Tables} {i : Nat}

theorem PlacedRun.column (h : PlacedRun fuel vs pid mem final) (hi : i < processInfoSize) :
    final.column i = ((mem.column i).replay (parses (pid i) vs)).setPid (pid i) := by
  rw [column_history h.run hi, h.placed i hi]

theorem PlacedRun.active (h : PlacedRun fuel vs pid mem final) (hi : i < processInfoSize) :
    (final.processInfo i).active =
      ((mem.column i).replay (parses (pid i) vs)).info.active :=
  congrArg (fun c : Column => c.info.active) (h.column hi)

theorem PlacedRun.name (h : PlacedRun fuel vs pid mem final) (hi : i < processInfoSize) :
    (final.processInfo i).name = ((mem.column i).replay (parses (pid i) vs)).info.name :=
  congrArg (fun c : Column => c.info.name) (h.column hi)

theorem PlacedRun.totalUsr (h : PlacedRun fuel vs pid mem final) (hi : i < processInfoSize) :
    (final.processInfo i).totalUsr = (mem.processInfo i).totalUsr := by
  have hTotal := congrArg (fun c : Column => c.info.totalUsr) (h.column hi)
  exact hTotal.trans (Column.replay_totalUsr _ _)

theorem PlacedRun.cells (h : PlacedRun fuel vs pid mem final) (hi : i < processInfoSize) :
    (fun sample => final.samples sample i) =
      ((mem.column i).replay (parses (pid i) vs)).cells :=
  congrArg Column.cells (h.column hi)

theorem PlacedRun.all_active (h : PlacedRun fuel vs pid mem final)
    (hActive : ∀ i < processInfoSize, (mem.processInfo i).active = true) :
    ∀ i < processInfoSize, (final.processInfo i).active = true := by
  intro i hi
  rw [h.active hi]
  exact Column.replay_active _ (hActive i hi)

theorem exists_placedRuns (hDistinct : (pids vs).toFinset.card ≤ processInfoSize) :
    ∃ pid : Nat → Int,
      ((∀ i < processInfoSize, pid i ≠ -1) → (pids vs).toFinset.card = processInfoSize) ∧
      (∀ p ∈ pids vs, ∃ i < processInfoSize, pid i = p) ∧
      ∀ mem, ∃ final, PlacedRun processInfoSize vs pid mem final := by
  obtain ⟨tables, hRun⟩ := runVisits_total (Nat.le_refl _) zeroTables hDistinct
  have hInv := runVisits_start_invariant hRun
  refine ⟨fun i => (tables.processInfo i).pid, ?_, ?_, (placedRun_self hRun).other⟩
  · intro hHeld
    apply (hInv.1.full_iff hInv.2).mpr
    intro i hi hFree
    exact hHeld i hi (slots_eq_none_iff.mp hFree)
  · intro p hp
    obtain ⟨i, hi, hHeld⟩ := exists_slot hRun hp
    exact ⟨i, hi, (slots_eq_some_iff (pids_nonneg hp)).mp hHeld⟩

end

/-! ## Independence -/

/-- The entries a run of the program visits. -/
abbrev mainVisits (opts : Options) (scans : List Scan) : List Visit :=
  visits (-1) (executed opts.maxSamples scans)

/-- Every slot has a process that is seen busy, and every cell is a difference of two lines. -/
structure Determined (opts : Options) (scans : List Scan) : Prop where
  cpu : opts.cpu = false
  full : (pids (mainVisits opts scans)).toFinset.card = processInfoSize
  busy : ∀ pid ∈ pids (mainVisits opts scans), Column.Busy (parses pid (mainVisits opts scans))
  covered : ∀ pid ∈ pids (mainVisits opts scans), ∀ s,
    s + 1 < (executed opts.maxSamples scans).length →
      Column.Covered (parses pid (mainVisits opts scans)) s

/-- No two contents of the memory lead to different reports. -/
def Independent (q : Qsort) (mypid : Int) (opts : Options) (scans : List Scan) : Prop :=
  ∀ fuel mem mem', main q mypid opts fuel mem scans = main q mypid opts fuel mem' scans

/-- Memory in which all slots and all rows of the sample table are alike. -/
def fill (c : Column) : Tables where
  processInfo _ := c.info
  samples s _ := c.cells s

@[simp] theorem column_fill (c : Column) (i : Nat) : (fill c).column i = c := rfl

section

variable {q : Qsort} {mypid : Int} {opts : Options} {scans : List Scan} {pid : Nat → Int}

theorem Independent.report_eq (h : Independent q mypid opts scans) {fuel : Nat}
    {mem mem' final final' : Tables}
    (hRun : PlacedRun fuel (mainVisits opts scans) pid mem final)
    (hRun' : PlacedRun fuel (mainVisits opts scans) pid mem' final') :
    report q mypid opts (-1 + (executed opts.maxSamples scans).length) final =
      report q mypid opts (-1 + (executed opts.maxSamples scans).length) final' := by
  have hMain := h fuel mem mem'
  rw [main_eq, main_eq, hRun.run, hRun'.run] at hMain
  exact Option.some.inj hMain

variable
  (hRuns : ∀ mem, ∃ final, PlacedRun processInfoSize (mainVisits opts scans) pid mem final)

include hRuns

/-- A flag that does not depend on the memory is set by the lines. -/
theorem Independent.flag (h : Independent q mypid opts scans) (c : Column) {i : Nat}
    (hi : i < processInfoSize) :
    (c.replay (parses (pid i) (mainVisits opts scans))).info.active = true := by
  obtain ⟨finalOn, hOn⟩ := hRuns (fill (Column.plain true 0 0))
  obtain ⟨final, hFinal⟩ := hRuns (fill c)
  have hFlag := hFinal.active hi
  rw [column_fill] at hFlag
  rw [← hFlag, ← active_of_report (h.report_eq hOn hFinal) hi]
  exact hOn.all_active (fun _ _ => rfl) i hi

/-- The totals the summary starts from are never set. -/
theorem Independent.cpu (h : Independent q mypid opts scans) : opts.cpu = false := by
  cases hCpu : opts.cpu with
  | false => rfl
  | true =>
    obtain ⟨final, hFinal⟩ := hRuns (fill (Column.plain true 0 0))
    obtain ⟨final', hFinal'⟩ := hRuns (fill ((Column.plain true 0 0).withTotal 1))
    have hTotal := grandTotalUsr_of_report hCpu (h.report_eq hFinal' hFinal)
    rw [grandTotalUsr_of_active (hFinal'.all_active fun _ _ => rfl),
      grandTotalUsr_of_active (hFinal.all_active fun _ _ => rfl)] at hTotal
    generalize (-1 + ((executed opts.maxSamples scans).length : Int)).toNat = N at hTotal
    have hOne : slotList.foldl (fun total i => total + ((final'.processInfo i).totalUsr +
          usrSum (fun sample => final'.samples sample i) N)) 0 =
        slotList.foldl (fun total i => total +
          (1 + usrSum (fun sample => final.samples sample i) N)) (0 + 0) := by
      apply List.foldl_ext
      intro total i hi
      have hSlot := mem_slotList.mp hi
      rw [hFinal'.totalUsr hSlot, hFinal'.cells hSlot, hFinal.cells hSlot, column_fill,
        Column.replay_withTotal]
      rfl
    have hZero : slotList.foldl (fun total i => total + ((final.processInfo i).totalUsr +
          usrSum (fun sample => final.samples sample i) N)) 0 =
        slotList.foldl (fun total i => total +
          (0 + usrSum (fun sample => final.samples sample i) N)) 0 := by
      apply List.foldl_ext
      intro total i hi
      rw [hFinal.totalUsr (mem_slotList.mp hi)]
      rfl
    rw [hOne, hZero, foldl_one_add, slotList, List.length_range] at hTotal
    have hSlots : UInt32.ofNat processInfoSize = 0 := by grind
    exact absurd hSlots (by decide)

/-- A cell that does not depend on the memory is a difference of two lines. -/
theorem Independent.covered (h : Independent q mypid opts scans) {s : Nat}
    (hs : s + 1 < (executed opts.maxSamples scans).length) {i : Nat} (hi : i < processInfoSize) :
    Column.Covered (parses (pid i) (mainVisits opts scans)) s := by
  by_contra hOpen
  obtain ⟨final, hFinal⟩ := hRuns (fill (Column.plain true 0 0))
  obtain ⟨final', hFinal'⟩ := hRuns (fill (Column.plain true 1 0))
  have hStart : ∀ p ∈ parses (pid i) (mainVisits opts scans), -1 ≤ p.1 :=
    fun p hp => sample_le_of_mem_parses hp
  have hCells : (Column.plain true 0 0).cells s ≠ (Column.plain true 1 0).cells s := by
    simp [Column.plain]
  apply Column.replay_cells_ne hStart hOpen hCells (by decide)
  rw [← column_fill (Column.plain true 0 0) i, ← column_fill (Column.plain true 1 0) i,
    ← hFinal.cells hi, ← hFinal'.cells hi]
  exact cells_of_report (h.cpu hRuns) (hFinal.all_active fun _ _ => rfl)
    (h.report_eq hFinal hFinal') (by omega) hi

end

theorem determined_of_independent {q : Qsort} {mypid : Int} {opts : Options} {scans : List Scan}
    (h : Independent q mypid opts scans)
    (hDistinct : (pids (mainVisits opts scans)).toFinset.card ≤ processInfoSize) :
    Determined opts scans := by
  obtain ⟨pid, hFull, hSlot, hRuns⟩ := exists_placedRuns hDistinct
  constructor
  · exact h.cpu hRuns
  · apply hFull
    intro i hi hFree
    have hActive := h.flag hRuns (Column.plain false 0 0) hi
    rw [hFree, parses_free] at hActive
    cases hActive
  · intro p hp
    obtain ⟨i, hi, rfl⟩ := hSlot p hp
    exact Column.busy_of_quiet (h.flag hRuns (Column.quiet _) hi)
  · intro p hp s hs
    obtain ⟨i, hi, rfl⟩ := hSlot p hp
    exact h.covered hRuns hs hi

/-- Two runs with the same lines end with the same flags, names and printed cells. -/
theorem report_eq_of_determined (q : Qsort) (mypid : Int) {opts : Options} {scans : List Scan}
    (h : Determined opts scans) {fuel : Nat} {pid : Nat → Int} {mem mem' final final' : Tables}
    (hRun : PlacedRun fuel (mainVisits opts scans) pid mem final)
    (hRun' : PlacedRun fuel (mainVisits opts scans) pid mem' final') :
    report q mypid opts (-1 + (executed opts.maxSamples scans).length) final =
      report q mypid opts (-1 + (executed opts.maxSamples scans).length) final' := by
  have hInv := runVisits_start_invariant hRun.run
  have hSeen : ∀ i < processInfoSize, pid i ∈ pids (mainVisits opts scans) := by
    intro i hi
    have hHeld := (hInv.1.full_iff hInv.2).mp h.full i hi
    obtain ⟨p, hp⟩ := Option.ne_none_iff_exists'.mp hHeld
    have hMem := (hInv.2 p).mpr ⟨i, hi, hp⟩
    rw [← hRun.placed i hi, pid_eq_getD, hp]
    exact List.mem_toFinset.mp hMem
  apply report_congr h.cpu
  · intro i hi
    rw [hRun.active hi]
    exact Column.replay_active_of_busy (h.busy _ (hSeen i hi)) _
  · intro i hi
    rw [hRun'.active hi]
    exact Column.replay_active_of_busy (h.busy _ (hSeen i hi)) _
  · intro i hi
    rw [hRun.placed i hi, hRun'.placed i hi]
  · intro i hi
    rw [hRun.name hi, hRun'.name hi]
    exact Column.replay_name (h.busy _ (hSeen i hi)).ne_nil _ _
  · intro s hs i hi
    have hCell := Column.replay_cells_determined (fun p hp => sample_le_of_mem_parses hp)
      (h.covered _ (hSeen i hi) s (by omega)) (mem.column i) (mem'.column i)
    rw [← hRun.cells hi, ← hRun'.cells hi] at hCell
    exact hCell

theorem independent_of_determined (q : Qsort) (mypid : Int) {opts : Options} {scans : List Scan}
    (h : Determined opts scans) : Independent q mypid opts scans := by
  intro fuel mem mem'
  rw [main_eq, main_eq]
  cases hRun : runVisits fuel (mainVisits opts scans) (initPids mem) with
  | some final =>
    have hPlaced := placedRun_self hRun
    obtain ⟨final', hPlaced'⟩ := hPlaced.other mem'
    rw [hPlaced'.run, Option.map_some, Option.map_some,
      report_eq_of_determined q mypid h hPlaced hPlaced']
  | none =>
    cases hRun' : runVisits fuel (mainVisits opts scans) (initPids mem') with
    | none => rfl
    | some final' =>
      obtain ⟨final, hPlaced⟩ := (placedRun_self hRun').other mem
      cases hRun.symm.trans hPlaced.run

/-- The reports do not depend on what `malloc` returned exactly when the gathering loop hangs
or the memory is written before every read. -/
theorem report_independent_iff (q : Qsort) (mypid : Int) (opts : Options) (scans : List Scan) :
    Independent q mypid opts scans ↔
      processInfoSize < (pids (mainVisits opts scans)).toFinset.card ∨
        Determined opts scans := by
  constructor
  · intro h
    rcases Nat.lt_or_ge processInfoSize (pids (mainVisits opts scans)).toFinset.card with
      hHang | hDistinct
    · exact Or.inl hHang
    · exact Or.inr (determined_of_independent h hDistinct)
  · intro h
    rcases h with hHang | hDetermined
    · intro fuel mem mem'
      rw [main, main, gather_hangs hHang, gather_hangs hHang]
    · exact independent_of_determined q mypid hDetermined

/-- The summary of the lone process depends on the memory. -/
theorem report_depends_lone : ¬ ∀ (q : Qsort) (mypid : Int) (opts : Options) (scans : List Scan),
    Independent q mypid opts scans := by
  intro h
  have hLone := determined_of_independent (h mergeQsort 2 loneOptions loneScans) loneScans_distinct
  exact absurd hLone.cpu (by decide)

end DebugCode.ProcessWatcher
