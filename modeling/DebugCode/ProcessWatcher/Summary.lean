import DebugCode.ProcessWatcher.History
import DebugCode.ProcessWatcher.Report

/-!
# The CPU summary

For a process parsed once in every listing of a run, the cells of its column are the
differences of successive counter values, and their sum telescopes. Both totals of the
summary are sums of the user times, so the system total is the growth of the user time.

* `replay_once`: the column of such a process.
* `summary_rows`: both totals are the growth of the user time.
* `summary_totals_iff`: the two totals are the growths of the two counters exactly when
  these grow alike.
-/

namespace DebugCode.ProcessWatcher

open Lib

/-! ## The lines of one process -/

/-- What one listing delivers for `pid`. -/
def parsedIn (pid : Int) (scan : Scan) : List Stat :=
  scan.flatMap fun d => if d.isProcess = true ∧ d.pid = pid then d.parsed.toList else []

theorem parses_scan (pid sample : Int) (scan : Scan) :
    parses pid (scan.map fun d => (sample, d)) =
      (parsedIn pid scan).map fun stat => (sample, stat) := by
  induction scan with
  | nil => rfl
  | cons d scan ih =>
    rw [List.map_cons, parses_cons, ih, parsedIn, parsedIn, List.flatMap_cons, List.map_append]
    congr 1
    unfold parsedBy
    split
    · cases d.parsed <;> rfl
    · rfl

theorem sample_le_of_mem_parses {scans : List Scan} {sample pid : Int} {p : Int × Stat}
    (h : p ∈ parses pid (visits sample scans)) : sample ≤ p.1 := by
  induction scans generalizing sample with
  | nil => simp [visits] at h
  | cons scan scans ih =>
    rw [visits, parses_append, parses_scan, List.mem_append] at h
    rcases h with h | h
    · obtain ⟨stat, -, rfl⟩ := List.mem_map.mp h
      exact le_refl _
    · have hLater := ih h
      omega

/-- A process parsed once in every listing has one line for every sample. -/
theorem parses_once {pid : Int} {scans : List Scan} {stats : Nat → Stat}
    (hOnce : ∀ k scan, scans[k]? = some scan → parsedIn pid scan = [stats k]) (sample : Int) :
    parses pid (visits sample scans) =
      (List.range scans.length).map fun k : Nat => (sample + k, stats k) := by
  induction scans generalizing sample stats with
  | nil => rfl
  | cons scan scans ih =>
    have hRest := @ih (fun k => stats (k + 1)) (fun k scan h => hOnce (k + 1) scan h) (sample + 1)
    rw [visits, parses_append, parses_scan, hOnce 0 scan rfl, hRest, List.length_cons,
      List.range_succ_eq_map]
    simp only [List.map_cons, List.map_nil, List.cons_append, List.nil_append, List.map_map,
      Nat.cast_zero, Int.add_zero, List.cons.injEq, true_and]
    apply List.map_congr_left
    intro k _
    simp only [Function.comp_apply, Prod.mk.injEq, and_true]
    push_cast
    omega

/-! ## The column of such a process -/

/-- What is known of a column when the baseline and the samples below `N` are in. -/
structure Telescoped (stats : Nat → Stat) (N : Nat) (start c : Column) : Prop where
  usr : c.info.usr = (stats N).usr
  sys : c.info.sys = (stats N).sys
  totalUsr : c.info.totalUsr = start.info.totalUsr
  totalSys : c.info.totalSys = start.info.totalSys
  cells : ∀ k < N, c.cells k =
    ⟨(stats (k + 1)).usr - (stats k).usr, (stats (k + 1)).sys - (stats k).sys⟩
  active : ∀ k < N, 0 < ((stats (k + 1)).usr - (stats k).usr) +
    ((stats (k + 1)).sys - (stats k).sys) → c.info.active = true

/-- The induction is on the samples; the slot carries the counters of the last one. -/
theorem replay_once (stats : Nat → Stat) (N : Nat) (c : Column) :
    Telescoped stats N c
      (c.replay ((List.range (N + 1)).map fun k : Nat => ((-1 : Int) + k, stats k))) := by
  induction N with
  | zero =>
    refine ⟨rfl, rfl, rfl, rfl, ?_, ?_⟩
    · intro k hk
      omega
    · intro k hk
      omega
  | succ N ih =>
    rw [List.range_succ, List.map_append, Column.replay_append]
    have hSample : (-1 : Int) + (N + 1 : Nat) = N := by
      push_cast
      omega
    have hNotBase : (N : Int) ≠ -1 := by omega
    simp only [List.map_cons, List.map_nil, Column.replay_cons, Column.replay_nil, hSample]
    refine ⟨rfl, rfl, ih.totalUsr, ih.totalSys, ?_, ?_⟩
    · intro k hk
      simp only [Column.record, ne_eq, hNotBase, not_false_eq_true, if_true, Int.toNat_natCast]
      by_cases hLast : k = N
      · subst hLast
        rw [Function.update_self, ProcessInfo.delta, ih.usr, ih.sys]
      · rw [Function.update_of_ne hLast]
        exact ih.cells k (by omega)
    · intro k hk hBusy
      simp only [Column.record, ProcessInfo.record, ne_eq, hNotBase, not_false_eq_true,
        decide_true, Bool.true_and, Bool.or_eq_true, decide_eq_true_eq]
      by_cases hLast : k = N
      · subst hLast
        rw [← ih.usr, ← ih.sys] at hBusy
        exact Or.inr hBusy
      · exact Or.inl (ih.active k (by omega) hBusy)

/-- The differences of successive values add up to the growth of the counter. -/
theorem usrSum_telescopes {cells : Nat → Sample} {u : Nat → UInt32} {N : Nat}
    (hCells : ∀ k < N, (cells k).deltaUsr = u (k + 1) - u k) : usrSum cells N = u N - u 0 := by
  induction N with
  | zero => simp [usrSum]
  | succ N ih =>
    rw [usrSum, ih fun k hk => hCells k (by omega), hCells N (by omega)]
    grind

/-! ## The rows of the summary -/

theorem column_initPids (mem : Tables) {i : Nat} (hi : i < processInfoSize) :
    (initPids mem).column i = (mem.column i).setPid (-1) := by
  simp [Tables.column, initPids, hi, Column.setPid]

theorem column_final {fuel : Nat} {vs : List Visit} {mem final : Tables}
    (hRun : runVisits fuel vs (initPids mem) = some final) {i : Nat} (hi : i < processInfoSize)
    {pid : Int} (hHeld : slots final i = some pid) :
    final.column i = ((mem.column i).replay (parses pid vs)).setPid pid := by
  rw [column_run (tableInv_initPids mem) hRun hi hHeld, column_initPids mem hi,
    Column.replay_setPid, Column.setPid_setPid]

theorem mem_pids_of_parses {pid : Int} {vs : List Visit} (h : parses pid vs ≠ []) :
    pid ∈ pids vs := by
  induction vs with
  | nil => exact absurd rfl h
  | cons v vs ih =>
    by_cases hOwn : v.2.isProcess = true ∧ v.2.pid = pid
    · rw [pids_cons_process hOwn.1, hOwn.2]
      exact List.mem_cons_self
    · rw [parses_cons, parsedBy, if_neg hOwn, List.nil_append] at h
      cases hProcess : v.2.isProcess with
      | false =>
        rw [pids_cons_other hProcess]
        exact ih h
      | true =>
        rw [pids_cons_process hProcess]
        exact List.mem_cons_of_mem _ (ih h)

theorem exists_slot {fuel : Nat} {vs : List Visit} {mem final : Tables}
    (hRun : runVisits fuel vs (initPids mem) = some final) {pid : Int} (hMem : pid ∈ pids vs) :
    ∃ i < processInfoSize, slots final i = some pid :=
  ((runVisits_start_invariant hRun).2 pid).mp (List.mem_toFinset.mpr hMem)

section

variable (q : Qsort) (mypid : Int) {opts : Options} {fuel : Nat} {mem : Tables}
  {scans : List Scan} {N : Nat} {pid : Int} {stats : Nat → Stat}

/-- Both totals of the process are the growth of its user time, and it has a row when some
sample saw it use time. -/
theorem summary_rows
    (hTotals : ∀ i, (mem.processInfo i).totalUsr = 0 ∧ (mem.processInfo i).totalSys = 0)
    (hLength : (executed opts.maxSamples scans).length = N + 1)
    (hOnce : ∀ k scan, (executed opts.maxSamples scans)[k]? = some scan →
      parsedIn pid scan = [stats k])
    {report : Report} (hMain : main q mypid opts fuel mem scans = some report)
    {summary : CpuSummary} (hSummary : report.summary = some summary) :
    (∀ row ∈ summary.rows, row.pid = pid →
      row.totalUsr = (stats N).usr - (stats 0).usr ∧
      row.totalSys = (stats N).usr - (stats 0).usr) ∧
    ((∃ k < N, 0 < ((stats (k + 1)).usr - (stats k).usr) +
        ((stats (k + 1)).sys - (stats k).sys)) →
      ∃ row ∈ summary.rows, row.pid = pid) := by
  rw [main_eq] at hMain
  obtain ⟨final, hRun, rfl⟩ := Option.map_eq_some_iff.mp hMain
  have hLines := parses_once hOnce (-1)
  rw [hLength] at hLines
  have hMem : pid ∈ pids (visits (-1) (executed opts.maxSamples scans)) := by
    apply mem_pids_of_parses
    rw [hLines]
    simp
  have hSlot : ∀ i < processInfoSize, slots final i = some pid →
      Telescoped stats N (mem.column i) ((final.column i).setPid (mem.column i).info.pid) := by
    intro i hi hHeld
    have hReplay := replay_once stats N (mem.column i)
    rw [column_final hRun hi hHeld, hLines, Column.setPid_setPid]
    exact ⟨hReplay.usr, hReplay.sys, hReplay.totalUsr, hReplay.totalSys, hReplay.cells,
      hReplay.active⟩
  have hSamples : (-1 + ((executed opts.maxSamples scans).length : Int)).toNat = N := by
    rw [hLength]
    omega
  simp only [report] at hSummary
  split at hSummary
  · obtain rfl := Option.some.inj hSummary
    constructor
    · intro row hRow hPid
      obtain ⟨i, hi, hActive, rfl⟩ := mem_cpuSummary_rows.mp hRow
      rw [summed_of_active _ hActive, hSamples] at hPid ⊢
      have hCol := hSlot i hi ((slots_eq_some_iff (pids_nonneg hMem)).mpr hPid)
      have hCells : ∀ k < N, (final.samples k i).deltaUsr =
          (stats (k + 1)).usr - (stats k).usr :=
        fun k hk => congrArg Sample.deltaUsr (hCol.cells k hk)
      have hSum : usrSum (fun sample => final.samples sample i) N =
          (stats N).usr - (stats 0).usr := usrSum_telescopes hCells
      have hUsr : (final.processInfo i).totalUsr = 0 := hCol.totalUsr.trans (hTotals i).1
      have hSys : (final.processInfo i).totalSys = 0 := hCol.totalSys.trans (hTotals i).2
      simp only [summaryRow, hSum, hUsr, hSys, UInt32.zero_add, and_self]
    · intro hSome
      obtain ⟨k, hk, hBusy⟩ := hSome
      obtain ⟨i, hi, hHeld⟩ := exists_slot hRun hMem
      have hActive : (final.processInfo i).active = true := (hSlot i hi hHeld).active k hk hBusy
      refine ⟨_, mem_cpuSummary_rows.mpr ⟨i, hi, hActive, rfl⟩, ?_⟩
      rw [summed_of_active _ hActive]
      exact (slots_eq_some_iff (pids_nonneg hMem)).mp hHeld
  · cases hSummary

theorem exists_report (mem : Tables) (hFuel : processInfoSize ≤ fuel)
    (hDistinct : (pids (visits (-1) (executed opts.maxSamples scans))).toFinset.card ≤
      processInfoSize) : ∃ report, main q mypid opts fuel mem scans = some report := by
  obtain ⟨final, hRun⟩ := runVisits_total hFuel mem hDistinct
  exact ⟨_, by rw [main_eq, hRun, Option.map_some]⟩

/-- The summary shows the growth of both counters exactly when they grow alike. It is made
unless more than 1031 PIDs occur, with a row for every process that was seen to use time. -/
theorem summary_totals_iff
    (hTotals : ∀ i, (mem.processInfo i).totalUsr = 0 ∧ (mem.processInfo i).totalSys = 0)
    (hLength : (executed opts.maxSamples scans).length = N + 1)
    (hOnce : ∀ k scan, (executed opts.maxSamples scans)[k]? = some scan →
      parsedIn pid scan = [stats k]) :
    ((pids (visits (-1) (executed opts.maxSamples scans))).toFinset.card ≤ processInfoSize →
      ∃ report, main q mypid opts processInfoSize mem scans = some report) ∧
    ∀ fuel report summary, main q mypid opts fuel mem scans = some report →
      report.summary = some summary →
      ((∃ k < N, 0 < ((stats (k + 1)).usr - (stats k).usr) +
          ((stats (k + 1)).sys - (stats k).sys)) →
        ∃ row ∈ summary.rows, row.pid = pid) ∧
      ∀ row ∈ summary.rows, row.pid = pid →
        (row.totalUsr = (stats N).usr - (stats 0).usr ∧
            row.totalSys = (stats N).sys - (stats 0).sys ↔
          (stats N).usr - (stats 0).usr = (stats N).sys - (stats 0).sys) := by
  constructor
  · intro hDistinct
    exact exists_report q mypid mem (Nat.le_refl _) hDistinct
  · intro fuel report summary hMain hSummary
    have hRows := summary_rows q mypid hTotals hLength hOnce hMain hSummary
    refine ⟨hRows.2, ?_⟩
    intro row hRow hPid
    obtain ⟨hUsr, hSys⟩ := hRows.1 row hRow hPid
    rw [hUsr, hSys]
    exact and_iff_right rfl

end

/-! ## A process next to `init` -/

/-- Merge sort, as in a common implementation of `qsort`. -/
def mergeQsort : Qsort where
  sort compare infos := infos.mergeSort fun a b => compare a b ≤ 0
  perm _ _ := List.mergeSort_perm _ _

theorem zeroTables_totals (i : Nat) : (zeroTables.processInfo i).totalUsr = 0 ∧
    (zeroTables.processInfo i).totalSys = 0 := ⟨rfl, rfl⟩

/-- A listing with `init` and one more process. -/
def workerScan (init worker : List UInt8) : Scan :=
  [numbered 1 (by decide) (some init), numbered 812 (by decide) (some worker)]

/-- The baseline and two samples. The worker's user time grows by 3 and then by 7, and its
system time by 6 and then by 4. -/
def workerScans : List Scan :=
  [workerScan (ascii "1 (init) S 0 1 1 0 -1 4194560 100 200 10 20 5 7 1 2")
      (ascii "812 (worker) R 1 812 812 0 -1 4194304 50 0 3 0 100 40 0 0"),
    workerScan (ascii "1 (init) S 0 1 1 0 -1 4194560 100 200 10 20 5 7 1 2")
      (ascii "812 (worker) R 1 812 812 0 -1 4194304 50 0 3 0 103 46 0 0"),
    workerScan (ascii "1 (init) S 0 1 1 0 -1 4194560 100 200 10 20 9 7 1 2")
      (ascii "812 (worker) R 1 812 812 0 -1 4194304 50 0 3 0 110 50 0 0")]

def workerStats (k : Nat) : Stat :=
  ⟨ascii "(worker)", [100, 103, 110].getD k 0, [40, 46, 50].getD k 0⟩

def workerOptions : Options := ⟨2, true, false⟩

theorem parsedIn_workerScan (init worker : List UInt8) :
    parsedIn 812 (workerScan init worker) = (scanStat worker).toList := by
  have hParsed : (numbered 812 (by decide) (some worker)).parsed = scanStat worker := rfl
  simp [parsedIn, workerScan, hParsed]

theorem workerScans_once (k : Nat) (scan : Scan)
    (h : (executed workerOptions.maxSamples workerScans)[k]? = some scan) :
    parsedIn 812 scan = [workerStats k] := by
  rcases k with _ | _ | _ | k
  · obtain rfl := Option.some.inj h
    rw [parsedIn_workerScan]
    decide +kernel
  · obtain rfl := Option.some.inj h
    rw [parsedIn_workerScan]
    decide +kernel
  · obtain rfl := Option.some.inj h
    rw [parsedIn_workerScan]
    decide +kernel
  · cases h

theorem workerScans_distinct :
    (pids (visits (-1) (executed workerOptions.maxSamples workerScans))).toFinset.card ≤
      processInfoSize :=
  (List.toFinset_card_le _).trans (by simp [pids, visits, executed, workerScans, workerScan,
    workerOptions, processInfoSize])

/-- The worker has a row, with the growth of both counters over the whole run. -/
theorem summary_totals_worker :
    (∃ report, main mergeQsort 3 workerOptions processInfoSize zeroTables workerScans =
      some report) ∧
    ∀ fuel report summary, main mergeQsort 3 workerOptions fuel zeroTables workerScans =
        some report → report.summary = some summary →
      (∃ row ∈ summary.rows, row.pid = 812) ∧
      ∀ row ∈ summary.rows, row.pid = 812 → row.totalUsr = 10 ∧ row.totalSys = 10 := by
  obtain ⟨hReport, hRows⟩ := summary_totals_iff (N := 2) mergeQsort 3 zeroTables_totals rfl
    workerScans_once
  refine ⟨hReport workerScans_distinct, ?_⟩
  intro fuel report summary hMain hSummary
  obtain ⟨hBusy, hTotal⟩ := hRows fuel report summary hMain hSummary
  refine ⟨hBusy ⟨0, by decide, by decide⟩, ?_⟩
  intro row hRow hPid
  exact (hTotal row hRow hPid).mpr (by decide)

/-! ## One process that uses no system time -/

/-- A listing with the process `1` alone. -/
def loneScan (line : List UInt8) : Scan := [numbered 1 (by decide) (some line)]

/-- The baseline and one sample; the user time grows from 5 to 9. -/
def loneScans : List Scan :=
  [loneScan (ascii "1 (init) S 0 1 1 0 -1 4194560 100 200 10 20 5 7 1 2"),
    loneScan (ascii "1 (init) S 0 1 1 0 -1 4194560 100 200 10 20 9 7 1 2")]

def loneStats (k : Nat) : Stat := ⟨ascii "(init)", if k = 0 then 5 else 9, 7⟩

def loneOptions : Options := ⟨1, true, false⟩

theorem parsedIn_loneScan (line : List UInt8) :
    parsedIn 1 (loneScan line) = (scanStat line).toList := by
  have hParsed : (numbered 1 (by decide) (some line)).parsed = scanStat line := rfl
  simp [parsedIn, loneScan, hParsed]

theorem loneScans_once (k : Nat) (scan : Scan)
    (h : (executed loneOptions.maxSamples loneScans)[k]? = some scan) :
    parsedIn 1 scan = [loneStats k] := by
  rcases k with _ | _ | k
  · obtain rfl := Option.some.inj h
    rw [parsedIn_loneScan]
    decide
  · obtain rfl := Option.some.inj h
    rw [parsedIn_loneScan]
    decide
  · cases h

theorem loneScans_distinct :
    (pids (visits (-1) (executed loneOptions.maxSamples loneScans))).toFinset.card ≤
      processInfoSize :=
  (List.toFinset_card_le _).trans (by simp [pids, visits, executed, loneScans, loneScan,
    loneOptions, processInfoSize])

/-- The system total of the lone process is 4, though its system time did not grow. -/
theorem summary_totals_wrong : ¬ ∀ (q : Qsort) (mypid : Int) (opts : Options) (mem : Tables)
    (scans : List Scan) (N : Nat) (pid : Int) (stats : Nat → Stat) (report : Report)
    (summary : CpuSummary) (row : SummaryRow),
    (∀ i, (mem.processInfo i).totalUsr = 0 ∧ (mem.processInfo i).totalSys = 0) → 1 ≤ N →
    (executed opts.maxSamples scans).length = N + 1 →
    (∀ k scan, (executed opts.maxSamples scans)[k]? = some scan → parsedIn pid scan = [stats k]) →
    main q mypid opts processInfoSize mem scans = some report → report.summary = some summary →
    row ∈ summary.rows → row.pid = pid →
      row.totalUsr = (stats N).usr - (stats 0).usr ∧
        row.totalSys = (stats N).sys - (stats 0).sys := by
  intro h
  obtain ⟨report, hMain⟩ := exists_report mergeQsort 2 zeroTables (Nat.le_refl _)
    loneScans_distinct
  have hSummary : ∃ summary, report.summary = some summary := by
    rw [main_eq] at hMain
    obtain ⟨final, -, rfl⟩ := Option.map_eq_some_iff.mp hMain
    exact ⟨_, rfl⟩
  obtain ⟨summary, hSummary⟩ := hSummary
  obtain ⟨hTotal, hBusy⟩ := summary_rows mergeQsort 2 (N := 1) zeroTables_totals rfl
    loneScans_once hMain hSummary
  obtain ⟨row, hRow, hPid⟩ := hBusy ⟨0, by decide, by decide⟩
  have hSys := (h mergeQsort 2 loneOptions zeroTables loneScans 1 1 loneStats report summary row
    zeroTables_totals (Nat.le_refl _) rfl loneScans_once hMain hSummary hRow hPid).2
  rw [(hTotal row hRow hPid).2] at hSys
  exact absurd hSys (by decide)

end DebugCode.ProcessWatcher
