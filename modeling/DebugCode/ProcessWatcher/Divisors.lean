import DebugCode.Lib.CInt
import DebugCode.ProcessWatcher.Charges
import DebugCode.ProcessWatcher.Malloc
import Mathlib.Algebra.BigOperators.Group.Finset.Basic

/-!
# What the CPU summary divides by

The shares are divided by the totals over all rows, the rates by `max_samples * 100`. Both
totals are sums of the user times alone, and an interrupted run has as many samples as it
got to.

* `replay_active_eq`, `replay_cells_eq`: the flag and the cells that the lines of a process
  lead to.
* `grandTotalUsr_toNat`: the total is the user time of the active processes.
* `divisors_pos_iff`: the divisors are positive exactly when a sample was finished, the
  product fits, and that user time is not a multiple of 2³².
-/

namespace DebugCode.ProcessWatcher

open Lib

/-- The divisors of what the summary prints: those of the process rows, and the one that the
row of the totals has as well. -/
structure PositiveDivisors (summary : CpuSummary) : Prop where
  rows : summary.rows ≠ [] → 0 < summary.grandTotalUsr ∧ 0 < summary.grandTotalSys
  samples : 0 < toInt (summary.maxSamples * 100)

namespace Column

/-- What each line of a process adds to the counters before it. -/
def increments : UInt32 → UInt32 → Parses → List (Int × Sample)
  | _, _, [] => []
  | usr, sys, p :: ps => (p.1, ⟨p.2.usr - usr, p.2.sys - sys⟩) :: increments p.2.usr p.2.sys ps

/-- The last of the increments of a sample, if it has any. -/
def lastIncrement (cell : Sample) (ds : List (Int × Sample)) (s : Nat) : Sample :=
  ((ds.filter fun d => d.1 = (s : Int)).getLast?.map Prod.snd).getD cell

/-- An increment that shows the process at work: the baseline does not count. -/
def works (d : Int × Sample) : Bool := d.1 ≠ -1 && 0 < d.2.deltaUsr + d.2.deltaSys

/-- Some line behind the baseline shows the process at work. -/
def seenActive (ps : Parses) : Bool := (increments 0 0 ps).any works

/-- The user time that is recorded for the samples below `n`. -/
def userTime (ps : Parses) (n : Nat) : Nat :=
  ∑ s ∈ Finset.range n, (lastIncrement ⟨0, 0⟩ (increments 0 0 ps) s).deltaUsr.toNat

/-! ## What the lines lead to -/

theorem replay_active_eq (ps : Parses) (c : Column) : (c.replay ps).info.active =
    (c.info.active || (increments c.info.usr c.info.sys ps).any works) := by
  induction ps generalizing c with
  | nil => rw [replay_nil, increments, List.any_nil, Bool.or_false]
  | cons p ps ih =>
    rw [replay_cons, ih, increments, List.any_cons, ← Bool.or_assoc]
    rfl

theorem lastIncrement_cons (cell : Sample) (d : Int × Sample) (ds : List (Int × Sample))
    (s : Nat) : lastIncrement cell (d :: ds) s =
      lastIncrement (if d.1 = (s : Int) then d.2 else cell) ds s := by
  rw [lastIncrement, lastIncrement, List.filter_cons]
  by_cases hSample : d.1 = (s : Int)
  · simp only [hSample, decide_true, if_true, List.getLast?_cons, Option.map_some,
      Option.getD_some]
    cases (ds.filter fun d => d.1 = (s : Int)).getLast? with
    | none => rfl
    | some e => rfl
  · simp only [hSample, decide_false, Bool.false_eq_true, if_false]

theorem replay_cells_eq {ps : Parses} (hStart : ∀ p ∈ ps, -1 ≤ p.1) (s : Nat) (c : Column) :
    (c.replay ps).cells s =
      lastIncrement (c.cells s) (increments c.info.usr c.info.sys ps) s := by
  induction ps generalizing c with
  | nil => rfl
  | cons p ps ih =>
    rw [replay_cons, ih (fun q hq => hStart q (List.mem_cons_of_mem _ hq)), increments,
      lastIncrement_cons]
    congr 1
    split_ifs with hSample
    · exact record_cells_self hSample c
    · exact record_cells_of_ne (hStart p List.mem_cons_self) hSample c

theorem replay_totalSys (ps : Parses) (c : Column) :
    (c.replay ps).info.totalSys = c.info.totalSys := by
  induction ps generalizing c with
  | nil => rfl
  | cons p ps ih => exact ih (c.record p.1 p.2)

end Column

/-! ## Sums that wrap -/

theorem usrSum_toNat (cells : Nat → Sample) (n : Nat) : (usrSum cells n).toNat =
    (∑ s ∈ Finset.range n, (cells s).deltaUsr.toNat) % 2 ^ 32 := by
  induction n with
  | zero => rfl
  | succ n ih => rw [usrSum, UInt32.toNat_add, ih, Finset.sum_range_succ, Nat.mod_add_mod]

theorem foldl_add_toNat (f : Nat → UInt32) (l : List Nat) (t : UInt32) :
    (l.foldl (fun total i => total + f i) t).toNat =
      (t.toNat + (l.map fun i => (f i).toNat).sum) % 2 ^ 32 := by
  induction l generalizing t with
  | nil => simp [Nat.mod_eq_of_lt t.toNat_lt]
  | cons i l ih =>
    rw [List.foldl_cons, ih, UInt32.toNat_add, Nat.mod_add_mod, List.map_cons, List.sum_cons,
      Nat.add_assoc]

theorem pos_iff_of_toNat {a : UInt32} {n : Nat} (h : a.toNat = n % 2 ^ 32) :
    0 < a ↔ ¬ 2 ^ 32 ∣ n := by
  rw [UInt32.lt_iff_toNat_lt, h, Nat.dvd_iff_mod_eq_zero]
  exact Nat.pos_iff_ne_zero

/-! ## The tables of a run -/

section

variable {fuel : Nat} {vs : List Visit} {final : Tables} {i : Nat}
  (hRun : runVisits fuel vs (initPids zeroTables) = some final)

include hRun

theorem active_eq (hi : i < processInfoSize) : (final.processInfo i).active =
    Column.seenActive (parses (final.processInfo i).pid vs) := by
  rw [(placedRun_self hRun).active hi, Column.replay_active_eq]
  rfl

/-- An active slot belongs to a PID that was visited. -/
theorem pid_mem_of_active (hi : i < processInfoSize)
    (hActive : (final.processInfo i).active = true) : (final.processInfo i).pid ∈ pids vs := by
  apply mem_pids_of_parses
  intro hNone
  rw [active_eq hRun hi, hNone] at hActive
  cases hActive

theorem totals_zero (hi : i < processInfoSize) :
    (final.processInfo i).totalUsr = 0 ∧ (final.processInfo i).totalSys = 0 := by
  have hColumn := (placedRun_self hRun).column hi
  constructor
  · exact (placedRun_self hRun).totalUsr hi
  · exact (congrArg (fun c : Column => c.info.totalSys) hColumn).trans
      (Column.replay_totalSys _ _)

/-- The slots that are active belong to the PIDs that were seen active, one to each. -/
theorem sum_active (f : Int → Nat) :
    ((activeSlots final).map fun i => f (final.processInfo i).pid).sum =
      ∑ pid ∈ (pids vs).toFinset with Column.seenActive (parses pid vs), f pid := by
  have hInv := runVisits_start_invariant hRun
  have hMem : ∀ i, i ∈ activeSlots final ↔
      i < processInfoSize ∧ (final.processInfo i).active = true := by
    intro i
    rw [activeSlots, List.mem_filter, mem_slotList]
  have hHeld : ∀ i ∈ activeSlots final, slots final i = some (final.processInfo i).pid := by
    intro i hi
    obtain ⟨hLt, hActive⟩ := (hMem i).mp hi
    exact (slots_eq_some_iff (pids_nonneg (pid_mem_of_active hRun hLt hActive))).mpr rfl
  have hNodup : (activeSlots final).Nodup := List.nodup_range.filter _
  rw [← List.sum_toFinset (fun i => f (final.processInfo i).pid) hNodup]
  have hInj : ∀ i ∈ (activeSlots final).toFinset, ∀ j ∈ (activeSlots final).toFinset,
      (final.processInfo i).pid = (final.processInfo j).pid → i = j := by
    intro i hi j hj hSame
    rw [List.mem_toFinset] at hi hj
    have hOther := hHeld j hj
    rw [← hSame] at hOther
    exact hInv.1.unique i ((hMem i).mp hi).1 j ((hMem j).mp hj).1 _ (hHeld i hi) hOther
  have hImage : (activeSlots final).toFinset.image (fun i => (final.processInfo i).pid) =
      {pid ∈ (pids vs).toFinset | Column.seenActive (parses pid vs)} := by
    ext pid
    simp only [Finset.mem_image, List.mem_toFinset, Finset.mem_filter, hMem]
    constructor
    · rintro ⟨i, ⟨hi, hActive⟩, rfl⟩
      refine ⟨pid_mem_of_active hRun hi hActive, ?_⟩
      rwa [← active_eq hRun hi]
    · rintro ⟨hVisited, hSeen⟩
      obtain ⟨i, hi, hSlot⟩ := exists_slot hRun hVisited
      have hPid := (slots_eq_some_iff (pids_nonneg hVisited)).mp hSlot
      refine ⟨i, ⟨hi, ?_⟩, hPid⟩
      rw [active_eq hRun hi, hPid, hSeen]
  rw [← hImage]
  exact (Finset.sum_image hInj).symm

end

/-! ## The divisors -/

section

variable {q : Qsort} {mypid : Int} {opts : Options} {fuel : Nat} {scans : List Scan}
  {final : Tables}
  (hRun : runVisits fuel (mainVisits opts scans) (initPids zeroTables) = some final)

include hRun

/-- Both totals of an active slot are the user time recorded for its PID. -/
theorem summed_toNat (maxSamples : Int) {i : Nat} (hi : i < processInfoSize)
    (hActive : (final.processInfo i).active = true) :
    (summed maxSamples final i).totalUsr.toNat =
        Column.userTime (parses (final.processInfo i).pid (mainVisits opts scans))
          maxSamples.toNat % 2 ^ 32 ∧
      (summed maxSamples final i).totalSys = (summed maxSamples final i).totalUsr := by
  obtain ⟨hUsr, hSys⟩ := totals_zero hRun hi
  rw [summed_of_active maxSamples hActive]
  refine ⟨?_, ?_⟩
  · show ((final.processInfo i).totalUsr +
      usrSum (fun sample => final.samples sample i) maxSamples.toNat).toNat = _
    rw [(placedRun_self hRun).cells hi, hUsr, UInt32.zero_add, usrSum_toNat, Column.userTime]
    congr 1
    apply Finset.sum_congr rfl
    intro s _
    rw [Column.replay_cells_eq (fun p hp => sample_le_of_mem_parses hp)]
    rfl
  · show (final.processInfo i).totalSys + _ = (final.processInfo i).totalUsr + _
    rw [hUsr, hSys]

/-- The user time of the processes that were seen active. -/
theorem grandTotalUsr_toNat (maxSamples : Int) :
    (cpuSummary q mypid maxSamples final).grandTotalUsr.toNat =
      (∑ pid ∈ (pids (mainVisits opts scans)).toFinset with
        Column.seenActive (parses pid (mainVisits opts scans)),
          Column.userTime (parses pid (mainVisits opts scans)) maxSamples.toNat) % 2 ^ 32 := by
  have hSlots : ((activeSlots final).map fun i => (summed maxSamples final i).totalUsr.toNat) =
      (activeSlots final).map fun i =>
        Column.userTime (parses (final.processInfo i).pid (mainVisits opts scans))
          maxSamples.toNat % 2 ^ 32 := by
    apply List.map_congr_left
    intro i hi
    rw [activeSlots, List.mem_filter, mem_slotList] at hi
    exact (summed_toNat hRun maxSamples hi.1 hi.2).1
  rw [cpuSummary, foldl_add_toNat, hSlots, UInt32.toNat_zero, Nat.zero_add,
    sum_active hRun fun pid =>
      Column.userTime (parses pid (mainVisits opts scans)) maxSamples.toNat % 2 ^ 32]
  exact (Finset.sum_nat_mod _ _ _).symm

theorem grandTotalSys_eq (maxSamples : Int) :
    (cpuSummary q mypid maxSamples final).grandTotalSys =
      (cpuSummary q mypid maxSamples final).grandTotalUsr := by
  simp only [cpuSummary]
  apply List.foldl_ext
  intro total i hi
  rw [activeSlots, List.mem_filter, mem_slotList] at hi
  rw [(summed_toNat hRun maxSamples hi.1 hi.2).2]

theorem rows_ne_nil_iff (maxSamples : Int) :
    (cpuSummary q mypid maxSamples final).rows ≠ [] ↔
      ∃ pid ∈ pids (mainVisits opts scans),
        Column.seenActive (parses pid (mainVisits opts scans)) = true := by
  rw [ne_eq, ← List.isEmpty_iff, Bool.not_eq_true, List.isEmpty_eq_false_iff_exists_mem]
  constructor
  · rintro ⟨row, hRow⟩
    obtain ⟨i, hi, hActive, -⟩ := mem_cpuSummary_rows.mp hRow
    refine ⟨_, pid_mem_of_active hRun hi hActive, ?_⟩
    rwa [← active_eq hRun hi]
  · rintro ⟨pid, hVisited, hSeen⟩
    obtain ⟨i, hi, hSlot⟩ := exists_slot hRun hVisited
    have hPid := (slots_eq_some_iff (pids_nonneg hVisited)).mp hSlot
    have hActive : (final.processInfo i).active = true := by
      rw [active_eq hRun hi, hPid, hSeen]
    exact ⟨_, mem_cpuSummary_rows.mpr ⟨i, hi, hActive, rfl⟩⟩

end

/-- With cleared tables, nothing is divided by zero exactly when a sample was finished, a
hundred times their number fits an `int`, and the user time that the active processes used
is not a multiple of 2³², where there are any. -/
theorem divisors_pos_iff {q : Qsort} {mypid : Int} {opts : Options} {fuel : Nat}
    {scans : List Scan} {report : Report} {summary : CpuSummary}
    (hMain : main q mypid opts fuel zeroTables scans = some report)
    (hSummary : report.summary = some summary) :
    PositiveDivisors summary ↔
      0 < toInt (((executed opts.maxSamples scans).length - 1) * 100) ∧
        ((∃ pid ∈ pids (mainVisits opts scans),
            Column.seenActive (parses pid (mainVisits opts scans)) = true) →
          ¬ 2 ^ 32 ∣ ∑ pid ∈ (pids (mainVisits opts scans)).toFinset with
            Column.seenActive (parses pid (mainVisits opts scans)),
              Column.userTime (parses pid (mainVisits opts scans))
                ((executed opts.maxSamples scans).length - 1)) := by
  rw [main_eq] at hMain
  obtain ⟨final, hRun, rfl⟩ := Option.map_eq_some_iff.mp hMain
  simp only [ProcessWatcher.report] at hSummary
  split_ifs at hSummary
  obtain rfl := Option.some.inj hSummary
  have hSamples : (-1 + ((executed opts.maxSamples scans).length : Int)).toNat =
      (executed opts.maxSamples scans).length - 1 := by omega
  have hTotal : (cpuSummary q mypid (-1 + ((executed opts.maxSamples scans).length : Int))
      final).grandTotalUsr.toNat = _ := grandTotalUsr_toNat hRun _
  rw [hSamples] at hTotal
  have hProduct : (cpuSummary q mypid (-1 + ((executed opts.maxSamples scans).length : Int))
      final).maxSamples = (executed opts.maxSamples scans).length - 1 := Int.add_comm _ _
  constructor
  · intro hPositive
    refine ⟨hProduct ▸ hPositive.samples, ?_⟩
    intro hSome
    rw [← pos_iff_of_toNat hTotal]
    exact (hPositive.rows ((rows_ne_nil_iff hRun _).mpr hSome)).1
  · rintro ⟨hPositive, hTime⟩
    constructor
    · intro hRows
      have hUsr := (pos_iff_of_toNat hTotal).mpr (hTime ((rows_ne_nil_iff hRun _).mp hRows))
      refine ⟨hUsr, ?_⟩
      rw [grandTotalSys_eq hRun]
      exact hUsr
    · rw [hProduct]
      exact hPositive

/-! ## One sample of one process -/

section

variable (line₁ line₂ : List UInt8) {stat₁ stat₂ : Stat}

theorem mainVisits_two : mainVisits loneOptions [loneScan line₁, loneScan line₂] =
    visits (-1) [loneScan line₁, loneScan line₂] := rfl

theorem main_two : ∃ final,
    runVisits processInfoSize (mainVisits loneOptions [loneScan line₁, loneScan line₂])
        (initPids zeroTables) = some final ∧
      main mergeQsort 2 loneOptions processInfoSize zeroTables [loneScan line₁, loneScan line₂] =
        some (report mergeQsort 2 loneOptions 1 final) := by
  obtain ⟨final, hRun⟩ := runVisits_two line₁ line₂
  rw [← mainVisits_two] at hRun
  refine ⟨final, hRun, ?_⟩
  rw [main_eq, hRun]
  rfl

theorem pids_two :
    (pids (mainVisits loneOptions [loneScan line₁, loneScan line₂])).toFinset = {1} := by
  rw [mainVisits_two]
  simp [pids, visits, loneScan]

variable {line₁ line₂} (h₁ : scanStat line₁ = some stat₁) (h₂ : scanStat line₂ = some stat₂)
  (hSeen : Column.seenActive [(-1, stat₁), (0, stat₂)] = true)

include h₁ h₂ hSeen

/-- The total over all processes is that of the only one. -/
theorem sum_two :
    (∑ pid ∈ (pids (mainVisits loneOptions [loneScan line₁, loneScan line₂])).toFinset with
      Column.seenActive (parses pid (mainVisits loneOptions [loneScan line₁, loneScan line₂])),
        Column.userTime (parses pid (mainVisits loneOptions [loneScan line₁, loneScan line₂]))
          1) = (stat₂.usr - stat₁.usr).toNat := by
  have hLines := parses_two h₁ h₂ 1
  rw [if_pos rfl] at hLines
  rw [pids_two, mainVisits_two, Finset.filter_singleton, hLines, if_pos hSeen,
    Finset.sum_singleton, hLines, Column.userTime, Finset.sum_range_one]
  rfl

/-- The process has a row, and its user time is the divisor of the shares. -/
theorem summary_two {final : Tables}
    (hRun : runVisits processInfoSize
      (mainVisits loneOptions [loneScan line₁, loneScan line₂]) (initPids zeroTables) =
        some final) :
    (cpuSummary mergeQsort 2 1 final).rows ≠ [] ∧
      (cpuSummary mergeQsort 2 1 final).grandTotalUsr = stat₂.usr - stat₁.usr := by
  have hLines := parses_two h₁ h₂ 1
  rw [if_pos rfl, ← mainVisits_two] at hLines
  constructor
  · rw [rows_ne_nil_iff hRun]
    refine ⟨1, ?_, ?_⟩
    · rw [← List.mem_toFinset, pids_two]
      exact Finset.mem_singleton_self 1
    · rw [hLines, hSeen]
  · apply UInt32.toNat.inj
    rw [grandTotalUsr_toNat hRun, Int.toNat_one, sum_two h₁ h₂ hSeen]
    exact Nat.mod_eq_of_lt (UInt32.toNat_lt _)

end

/-- The summary of the lone process divides by 4 and by 100. -/
theorem divisors_pos_lone : ∃ report summary,
    main mergeQsort 2 loneOptions processInfoSize zeroTables loneScans = some report ∧
      report.summary = some summary ∧ PositiveDivisors summary := by
  obtain ⟨final, -, hMain⟩ := main_two
    (ascii "1 (init) S 0 1 1 0 -1 4194560 100 200 10 20 5 7 1 2")
    (ascii "1 (init) S 0 1 1 0 -1 4194560 100 200 10 20 9 7 1 2")
  refine ⟨_, _, hMain, rfl, (divisors_pos_iff hMain rfl).mpr ⟨by decide, ?_⟩⟩
  intro _ hMultiple
  have hTime := hMultiple.trans (dvd_of_eq (sum_two scanStat_early scanStat_late rfl))
  exact absurd hTime (by decide)

/-- The process works in the kernel only. -/
def kernelScans : List Scan :=
  [loneScan (ascii "1 (init) S 0 1 1 0 -1 4194560 100 200 10 20 5 7 1 2"),
    loneScan (ascii "1 (init) S 0 1 1 0 -1 4194560 100 200 10 20 5 9 1 2")]

/-- It has a row, whose shares are divided by zero. -/
theorem divisors_zero : ∃ report summary,
    main mergeQsort 2 loneOptions processInfoSize zeroTables kernelScans = some report ∧
      report.summary = some summary ∧ ¬ PositiveDivisors summary := by
  obtain ⟨final, hRun, hMain⟩ := main_two
    (ascii "1 (init) S 0 1 1 0 -1 4194560 100 200 10 20 5 7 1 2")
    (ascii "1 (init) S 0 1 1 0 -1 4194560 100 200 10 20 5 9 1 2")
  have hSecond : scanStat (ascii "1 (init) S 0 1 1 0 -1 4194560 100 200 10 20 5 9 1 2") =
      some ⟨ascii "(init)", 5, 9⟩ := by decide +kernel
  obtain ⟨hRows, hTotal⟩ := summary_two scanStat_early hSecond rfl hRun
  refine ⟨_, _, hMain, rfl, ?_⟩
  intro hPositive
  have hUsr := (hPositive.rows hRows).1
  rw [hTotal] at hUsr
  exact absurd hUsr (by decide)

end DebugCode.ProcessWatcher
