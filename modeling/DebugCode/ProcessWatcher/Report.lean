import DebugCode.ProcessWatcher.PidTable

/-!
# The reports

`process-watcher.c` behind the gathering loop, and `main` as a whole. A report is given by
the values its `printf` calls are handed; how a ratio of two totals is rounded to two
decimals is left out. `qsort` is any function that returns a permutation of its input.
-/

namespace DebugCode.ProcessWatcher

open Lib

/-- The options `-s`, `-c` and `-p`. With a negative `-s` the allocation of the sample
table fails, and `main` exits before it gathers anything. -/
structure Options where
  maxSamples : Nat
  cpuSummary : Bool
  processSummary : Bool

/-- Without `-c` and `-p` the CPU summary is made. -/
def Options.cpu (opts : Options) : Bool := opts.cpuSummary || !opts.processSummary

structure Qsort where
  sort : (ProcessInfo → ProcessInfo → Int) → List ProcessInfo → List ProcessInfo
  perm : ∀ compare infos, (sort compare infos).Perm infos

def processInfoCompare (item1 item2 : ProcessInfo) : Int :=
  if item1.totalUsr + item1.totalSys < item2.totalUsr + item2.totalSys then 1 else 0

/-- The per-second sample dump: the columns of the active slots. -/
structure SampleDump where
  pids : List Int
  names : List (List UInt8)
  rows : List (List Sample)

/-- What a row of the CPU summary is printed from, besides the totals over all rows. -/
structure SummaryRow where
  pid : Int
  totalUsr : UInt32
  totalSys : UInt32
  name : List UInt8
  monitoring : Bool

structure CpuSummary where
  rows : List SummaryRow
  grandTotalUsr : UInt32
  grandTotalSys : UInt32
  maxSamples : Int

structure Report where
  /-- The active flags, which select what is printed. -/
  flags : List Bool
  active : UInt32
  dump : Option SampleDump
  summary : Option CpuSummary

/-- The slots in the order of the table. -/
def slotList : List Nat := List.range processInfoSize

def activeSlots (tables : Tables) : List Nat :=
  slotList.filter fun i => (tables.processInfo i).active

def sampleDump (maxSamples : Int) (tables : Tables) : SampleDump where
  pids := (activeSlots tables).map fun i => (tables.processInfo i).pid
  -- `%-8.8s` of `&name[1]`
  names := (activeSlots tables).map fun i =>
    ((CString.ofBuffer ((tables.processInfo i).name.drop 1)).bytes).take 8
  rows := (List.range maxSamples.toNat).map fun sample =>
    (activeSlots tables).map fun i => tables.samples sample i

/-- One round of the summation loop. The source adds `delta_usr` to both totals. -/
def ProcessInfo.addSample (info : ProcessInfo) (s : Sample) : ProcessInfo :=
  { info with
    totalUsr := info.totalUsr + s.deltaUsr
    totalSys := info.totalSys + s.deltaUsr }

/-- The slot behind the summation loop, which skips the slots that are not active. -/
def summed (maxSamples : Int) (tables : Tables) (i : Nat) : ProcessInfo :=
  if (tables.processInfo i).active then
    (List.range maxSamples.toNat).foldl
      (fun info sample => info.addSample (tables.samples sample i)) (tables.processInfo i)
  else tables.processInfo i

/-- The mark is `"(Monitoring overhead)"`. -/
def summaryRow (mypid : Int) (info : ProcessInfo) : SummaryRow where
  pid := info.pid
  totalUsr := info.totalUsr
  totalSys := info.totalSys
  name := (CString.ofBuffer info.name).bytes
  monitoring := mypid = info.pid

def cpuSummary (q : Qsort) (mypid maxSamples : Int) (tables : Tables) : CpuSummary where
  rows := ((q.sort processInfoCompare (slotList.map (summed maxSamples tables))).filter
    fun info => info.active).map (summaryRow mypid)
  grandTotalUsr := (activeSlots tables).foldl
    (fun total i => total + (summed maxSamples tables i).totalUsr) 0
  grandTotalSys := (activeSlots tables).foldl
    (fun total i => total + (summed maxSamples tables i).totalSys) 0
  maxSamples := maxSamples

def report (q : Qsort) (mypid : Int) (opts : Options) (maxSamples : Int) (tables : Tables) :
    Report where
  flags := slotList.map fun i => (tables.processInfo i).active
  active := UInt32.ofNat (activeSlots tables).length
  dump := if opts.processSummary then some (sampleDump maxSamples tables) else none
  summary := if opts.cpu then some (cpuSummary q mypid maxSamples tables) else none

/-- The program: `mem` is what `malloc` returned, `scans` the listings of `/proc` until
`SIGINT`; `none` when a probe runs out of fuel. -/
def main (q : Qsort) (mypid : Int) (opts : Options) (fuel : Nat) (mem : Tables)
    (scans : List Scan) : Option Report :=
  (gather fuel opts.maxSamples (-1) scans (initPids mem)).map fun final =>
    report q mypid opts (if final.stop then final.sample else opts.maxSamples) final.tables

/-- The reports are made for the sample scans that were done, be it all or those up to
`SIGINT`. -/
theorem main_eq (q : Qsort) (mypid : Int) (opts : Options) (fuel : Nat) (mem : Tables)
    (scans : List Scan) : main q mypid opts fuel mem scans =
      (runVisits fuel (visits (-1) (executed opts.maxSamples scans)) (initPids mem)).map
        (report q mypid opts (-1 + (executed opts.maxSamples scans).length)) := by
  have hSamples : (if decide (scans.length ≤ opts.maxSamples + 1) = true then
      -1 + ((executed opts.maxSamples scans).length : Int) else opts.maxSamples) =
      -1 + (executed opts.maxSamples scans).length := by
    simp only [executed, List.length_take, decide_eq_true_eq]
    split <;> omega
  rw [main, gather_start, Option.map_map]
  congr 1
  funext tables
  simp only [Function.comp_apply, hSamples]

theorem mem_slotList {i : Nat} : i ∈ slotList ↔ i < processInfoSize := List.mem_range

/-- The user time of the first `n` samples of a column. -/
def usrSum (cells : Nat → Sample) : Nat → UInt32
  | 0 => 0
  | n + 1 => usrSum cells n + (cells n).deltaUsr

/-- Both totals grow by the user time. -/
theorem foldl_addSample (cells : Nat → Sample) (info : ProcessInfo) (n : Nat) :
    (List.range n).foldl (fun info sample => info.addSample (cells sample)) info =
      { info with
        totalUsr := info.totalUsr + usrSum cells n
        totalSys := info.totalSys + usrSum cells n } := by
  induction n with
  | zero => simp [usrSum]
  | succ n ih =>
    rw [List.range_succ, List.foldl_append, ih]
    simp only [List.foldl_cons, List.foldl_nil, ProcessInfo.addSample, usrSum, UInt32.add_assoc]

theorem summed_of_active {tables : Tables} {i : Nat} (maxSamples : Int)
    (hActive : (tables.processInfo i).active = true) :
    summed maxSamples tables i =
      { tables.processInfo i with
        totalUsr := (tables.processInfo i).totalUsr +
          usrSum (fun sample => tables.samples sample i) maxSamples.toNat
        totalSys := (tables.processInfo i).totalSys +
          usrSum (fun sample => tables.samples sample i) maxSamples.toNat } := by
  rw [summed, if_pos hActive]
  exact foldl_addSample (fun sample => tables.samples sample i) _ _

theorem summed_active (maxSamples : Int) (tables : Tables) (i : Nat) :
    (summed maxSamples tables i).active = (tables.processInfo i).active := by
  cases hActive : (tables.processInfo i).active with
  | false => rw [summed, if_neg (by simp [hActive]), hActive]
  | true =>
    rw [summed_of_active maxSamples hActive]
    exact hActive

/-- The rows of the CPU summary are those of the active slots. -/
theorem mem_cpuSummary_rows {q : Qsort} {mypid maxSamples : Int} {tables : Tables}
    {row : SummaryRow} : row ∈ (cpuSummary q mypid maxSamples tables).rows ↔
      ∃ i < processInfoSize, (tables.processInfo i).active = true ∧
        row = summaryRow mypid (summed maxSamples tables i) := by
  simp only [cpuSummary, List.mem_map, List.mem_filter, (q.perm _ _).mem_iff, mem_slotList]
  constructor
  · rintro ⟨info, ⟨⟨i, hi, rfl⟩, hActive⟩, rfl⟩
    rw [summed_active] at hActive
    exact ⟨i, hi, hActive, rfl⟩
  · rintro ⟨i, hi, hActive, rfl⟩
    rw [← summed_active] at hActive
    exact ⟨_, ⟨⟨i, hi, rfl⟩, hActive⟩, rfl⟩

/-! ## What the reports show -/

theorem activeSlots_all {tables : Tables}
    (h : ∀ i < processInfoSize, (tables.processInfo i).active = true) :
    activeSlots tables = slotList := by
  apply List.filter_eq_self.mpr
  intro i hi
  exact h i (mem_slotList.mp hi)

theorem cpu_eq_false_iff {opts : Options} :
    opts.cpu = false ↔ opts.cpuSummary = false ∧ opts.processSummary = true := by
  simp [Options.cpu]

section

variable {q : Qsort} {mypid maxSamples : Int} {opts : Options} {tables tables' : Tables}

/-- Without the CPU summary the reports show the flags, PIDs, names and cells only. -/
theorem report_congr (hCpu : opts.cpu = false)
    (hActive : ∀ i < processInfoSize, (tables.processInfo i).active = true)
    (hActive' : ∀ i < processInfoSize, (tables'.processInfo i).active = true)
    (hPid : ∀ i < processInfoSize, (tables.processInfo i).pid = (tables'.processInfo i).pid)
    (hName : ∀ i < processInfoSize, (tables.processInfo i).name = (tables'.processInfo i).name)
    (hCells : ∀ s < maxSamples.toNat, ∀ i < processInfoSize,
      tables.samples s i = tables'.samples s i) :
    report q mypid opts maxSamples tables = report q mypid opts maxSamples tables' := by
  have hSlots := activeSlots_all hActive
  have hSlots' := activeSlots_all hActive'
  have hFlags : (slotList.map fun i => (tables.processInfo i).active) =
      slotList.map fun i => (tables'.processInfo i).active := by
    apply List.map_congr_left
    intro i hi
    rw [hActive i (mem_slotList.mp hi), hActive' i (mem_slotList.mp hi)]
  have hPids : (slotList.map fun i => (tables.processInfo i).pid) =
      slotList.map fun i => (tables'.processInfo i).pid :=
    List.map_congr_left fun i hi => hPid i (mem_slotList.mp hi)
  have hNames : (slotList.map fun i =>
        (CString.ofBuffer ((tables.processInfo i).name.drop 1)).bytes.take 8) =
      slotList.map fun i =>
        (CString.ofBuffer ((tables'.processInfo i).name.drop 1)).bytes.take 8 := by
    apply List.map_congr_left
    intro i hi
    rw [hName i (mem_slotList.mp hi)]
  have hRows : ((List.range maxSamples.toNat).map fun s =>
        slotList.map fun i => tables.samples s i) =
      (List.range maxSamples.toNat).map fun s => slotList.map fun i => tables'.samples s i := by
    apply List.map_congr_left
    intro s hs
    apply List.map_congr_left
    intro i hi
    exact hCells s (List.mem_range.mp hs) i (mem_slotList.mp hi)
  simp only [report, sampleDump, hSlots, hSlots', hFlags, hPids, hNames, hRows, hCpu,
    Bool.false_eq_true, if_false]

theorem active_of_report (h : report q mypid opts maxSamples tables =
      report q mypid opts maxSamples tables') {i : Nat} (hi : i < processInfoSize) :
    (tables.processInfo i).active = (tables'.processInfo i).active := by
  have hFlags := congrArg Report.flags h
  simp only [report] at hFlags
  exact List.map_inj_left.mp hFlags i (mem_slotList.mpr hi)

theorem cells_of_report (hCpu : opts.cpu = false)
    (hActive : ∀ i < processInfoSize, (tables.processInfo i).active = true)
    (h : report q mypid opts maxSamples tables = report q mypid opts maxSamples tables')
    {s : Nat} (hs : s < maxSamples.toNat) {i : Nat} (hi : i < processInfoSize) :
    tables.samples s i = tables'.samples s i := by
  have hActive' : ∀ i < processInfoSize, (tables'.processInfo i).active = true := by
    intro j hj
    rw [← active_of_report h hj]
    exact hActive j hj
  have hDump := congrArg Report.dump h
  simp only [report, (cpu_eq_false_iff.mp hCpu).2, if_true, Option.some_inj] at hDump
  have hRow := List.map_inj_left.mp (congrArg SampleDump.rows hDump) s (List.mem_range.mpr hs)
  rw [activeSlots_all hActive, activeSlots_all hActive'] at hRow
  exact List.map_inj_left.mp hRow i (mem_slotList.mpr hi)

theorem grandTotalUsr_of_report (hCpu : opts.cpu = true)
    (h : report q mypid opts maxSamples tables = report q mypid opts maxSamples tables') :
    (cpuSummary q mypid maxSamples tables).grandTotalUsr =
      (cpuSummary q mypid maxSamples tables').grandTotalUsr := by
  have hSummary := congrArg Report.summary h
  simp only [report, hCpu, if_true, Option.some_inj] at hSummary
  exact congrArg CpuSummary.grandTotalUsr hSummary

theorem grandTotalUsr_of_active
    (hActive : ∀ i < processInfoSize, (tables.processInfo i).active = true) :
    (cpuSummary q mypid maxSamples tables).grandTotalUsr =
      slotList.foldl (fun total i => total + ((tables.processInfo i).totalUsr +
        usrSum (fun sample => tables.samples sample i) maxSamples.toNat)) 0 := by
  simp only [cpuSummary, activeSlots_all hActive]
  apply List.foldl_ext
  intro total i hi
  rw [summed_of_active _ (hActive i (mem_slotList.mp hi))]

end

theorem foldl_one_add (f : Nat → UInt32) (l : List Nat) (s t : UInt32) :
    l.foldl (fun total i => total + (1 + f i)) (s + t) =
      s + UInt32.ofNat l.length + l.foldl (fun total i => total + (0 + f i)) t := by
  induction l generalizing s t with
  | nil =>
    show s + t = s + 0 + t
    rw [UInt32.add_zero]
  | cons i l ih =>
    have hNext : s + t + (1 + f i) = s + 1 + (t + (0 + f i)) := by grind
    rw [List.foldl_cons, List.foldl_cons, hNext, ih, List.length_cons, UInt32.ofNat_add]
    grind

end DebugCode.ProcessWatcher
