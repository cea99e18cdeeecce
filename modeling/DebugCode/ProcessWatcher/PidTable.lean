import DebugCode.Lib.Probe
import DebugCode.ProcessWatcher.Gather

/-!
# The PID table over whole runs

The slots of the process table are an open-addressing table with linear probing, with `-1`
for a free slot, so the run of the gathering loop projects to a run of insertions.

* `runVisits_slots`: the PIDs of the table after any visits are the insertion of the PIDs
  visited (the table refines `Probe.insertAll`).
* `pidTable_correct`: while at most 1031 distinct PIDs occur, every probe stops, every PID
  keeps one slot of its own, and it is reached from its home slot over occupied slots.
* `gather_terminates_iff`: the loop gets through exactly when at most 1031 distinct PIDs
  occur. Slots are never released, so one PID more hangs the probe.
-/

namespace DebugCode.ProcessWatcher

open Lib

/-- An entry of `/proc` together with the number of the sample it is read for. -/
abbrev Visit : Type := Int × Dirent

/-- The entries the loop visits, from sample `sample` on. -/
def visits : Int → List Scan → List Visit
  | _, [] => []
  | sample, scan :: scans => scan.map (fun d => (sample, d)) ++ visits (sample + 1) scans

/-- The loop bodies one after the other. -/
def runVisits (fuel : Nat) (vs : List Visit) (tables : Tables) : Option Tables :=
  vs.foldlM (fun tables v => scanEntry fuel v.1 tables v.2) tables

/-- The PIDs visited, with repetitions. -/
def pids (vs : List Visit) : List Int :=
  (vs.filter fun v => v.2.isProcess).map fun v => v.2.pid

/-- The listings the loop gets to. -/
def executed (maxSamples : Nat) (scans : List Scan) : List Scan := scans.take (maxSamples + 1)

/-- The slots of the table as an open-addressing table. -/
def slots (tables : Tables) : Probe.Slots Int := fun i =>
  if (tables.processInfo i).pid = -1 then none else some (tables.processInfo i).pid

/-! ## The loop visits the entries in order -/

@[simp] theorem runVisits_nil (fuel : Nat) (tables : Tables) :
    runVisits fuel [] tables = some tables := rfl

theorem runVisits_cons (fuel : Nat) (v : Visit) (vs : List Visit) (tables : Tables) :
    runVisits fuel (v :: vs) tables =
      (scanEntry fuel v.1 tables v.2).bind (runVisits fuel vs) := rfl

theorem runVisits_append (fuel : Nat) (vs ws : List Visit) (tables : Tables) :
    runVisits fuel (vs ++ ws) tables = (runVisits fuel vs tables).bind (runVisits fuel ws) := by
  induction vs generalizing tables with
  | nil => rfl
  | cons v vs ih =>
    rw [List.cons_append, runVisits_cons, runVisits_cons, Option.bind_assoc]
    exact congrArg _ (funext ih)

theorem scanProc_eq (fuel : Nat) (sample : Int) (scan : Scan) (tables : Tables) :
    scanProc fuel sample tables scan =
      runVisits fuel (scan.map fun d => (sample, d)) tables := by
  rw [scanProc, runVisits, List.foldlM_map]

theorem gather_eq_runVisits (fuel maxSamples : Nat) (scans : List Scan) (k : Nat) (sample : Int)
    (hk : sample + k = maxSamples) (tables : Tables) :
    gather fuel maxSamples sample scans tables =
      (runVisits fuel (visits sample (scans.take k)) tables).map fun tables =>
        ⟨decide (scans.length ≤ k), sample + (scans.take k).length, tables⟩ := by
  induction scans generalizing k sample tables with
  | nil => simp [gather, visits]
  | cons scan scans ih =>
    cases k with
    | zero =>
      have hEnd : ¬ sample < (maxSamples : Int) := by omega
      simp [gather, hEnd, visits]
    | succ k =>
      have hGo : sample < (maxSamples : Int) := by omega
      have hRest := ih k (sample + 1) (by omega)
      rw [gather, if_pos hGo, List.take_succ_cons, visits, runVisits_append, ← scanProc_eq]
      cases scanProc fuel sample tables scan with
      | none => rfl
      | some next =>
        simp only [Option.bind_some, hRest, List.length_cons, Nat.add_le_add_iff_right]
        congr 1
        funext final
        simp only [Gathered.mk.injEq, true_and, and_true]
        push_cast
        omega

theorem gather_start (fuel maxSamples : Nat) (scans : List Scan) (tables : Tables) :
    gather fuel maxSamples (-1) scans tables =
      (runVisits fuel (visits (-1) (executed maxSamples scans)) tables).map fun tables =>
        ⟨decide (scans.length ≤ maxSamples + 1), -1 + (executed maxSamples scans).length, tables⟩ :=
  gather_eq_runVisits fuel maxSamples scans (maxSamples + 1) (-1) (by omega) tables

/-! ## The table is an open-addressing table -/

theorem processInfoSize_pos : 0 < processInfoSize := by decide

theorem pidHash_lt (pid : Int) : pidHash pid < processInfoSize := Nat.mod_lt _ processInfoSize_pos

theorem Dirent.nonneg {d : Dirent} (hProcess : d.isProcess = true) : 0 ≤ d.pid :=
  d.pid_nonneg hProcess

theorem slots_eq_some_iff {tables : Tables} {i : Nat} {pid : Int} (hPid : 0 ≤ pid) :
    slots tables i = some pid ↔ (tables.processInfo i).pid = pid := by
  unfold slots
  split
  · rename_i hFree
    simp only [reduceCtorEq, false_iff, hFree]
    omega
  · exact Option.some_inj

theorem slots_eq_none_iff {tables : Tables} {i : Nat} :
    slots tables i = none ↔ (tables.processInfo i).pid = -1 := by
  unfold slots
  split <;> simp_all

theorem pid_eq_getD (tables : Tables) (i : Nat) :
    (tables.processInfo i).pid = (slots tables i).getD (-1) := by
  unfold slots
  split
  · assumption
  · rfl

theorem probe_eq_probe {tables : Tables} {pid : Int} (hPid : 0 ≤ pid) (fuel index : Nat) :
    probe tables.processInfo pid fuel index =
      Probe.probe processInfoSize (slots tables) pid fuel index := by
  induction fuel generalizing index with
  | zero => rfl
  | succ fuel ih =>
    rw [probe, Probe.probe]
    simp only [Probe.Stops, slots_eq_some_iff hPid, slots_eq_none_iff, Probe.next, ih]
    split
    · rename_i hKey
      rw [if_pos (Or.inl hKey)]
    · rename_i hKey
      simp only [hKey, false_or]

theorem slots_setPid (tables : Tables) (index : Nat) {pid : Int} (hPid : 0 ≤ pid) :
    slots (tables.setPid index pid) = Function.update (slots tables) index (some pid) := by
  funext i
  by_cases hi : i = index
  · subst hi
    rw [Function.update_self, slots_eq_some_iff hPid]
    simp [Tables.setPid, ProcessInfo.setPid]
  · rw [Function.update_of_ne hi]
    simp [slots, Tables.setPid, hi]

theorem slots_record (sample : Int) (index : Nat) (stat : Stat) (tables : Tables) :
    slots (tables.record sample index stat) = slots tables := by
  funext i
  by_cases hi : i = index
  · subst hi
    simp [slots, Tables.record, ProcessInfo.record]
  · simp [slots, Tables.record, hi]

/-- The tables after an entry whose probe ended at `index`. -/
def visited (sample : Int) (d : Dirent) (index : Nat) (tables : Tables) : Tables :=
  match d.parsed with
  | none => tables.setPid index d.pid
  | some stat => (tables.setPid index d.pid).record sample index stat

theorem scanEntry_process {fuel : Nat} {sample : Int} {tables : Tables} {d : Dirent}
    (hProcess : d.isProcess = true) : scanEntry fuel sample tables d =
      (probe tables.processInfo d.pid fuel (pidHash d.pid)).map fun index =>
        visited sample d index tables := by
  rw [scanEntry, if_pos hProcess]
  rfl

theorem scanEntry_other {fuel : Nat} {sample : Int} {tables : Tables} {d : Dirent}
    (hProcess : d.isProcess = false) : scanEntry fuel sample tables d = some tables := by
  rw [scanEntry, hProcess]
  rfl

theorem slots_visited (sample : Int) (d : Dirent) (hProcess : d.isProcess = true) (index : Nat)
    (tables : Tables) : slots (visited sample d index tables) =
      Function.update (slots tables) index (some d.pid) := by
  have hPid := Dirent.nonneg hProcess
  unfold visited
  split
  · exact slots_setPid tables index hPid
  · rw [slots_record, slots_setPid tables index hPid]

theorem pids_cons_process {v : Visit} (hProcess : v.2.isProcess = true) (vs : List Visit) :
    pids (v :: vs) = v.2.pid :: pids vs := by
  simp [pids, hProcess]

theorem pids_cons_other {v : Visit} (hProcess : v.2.isProcess = false) (vs : List Visit) :
    pids (v :: vs) = pids vs := by
  simp [pids, hProcess]

theorem pids_append (vs ws : List Visit) : pids (vs ++ ws) = pids vs ++ pids ws := by
  simp [pids]

theorem pids_nonneg {vs : List Visit} {pid : Int} (h : pid ∈ pids vs) : 0 ≤ pid := by
  obtain ⟨v, hv, rfl⟩ := List.mem_map.mp h
  exact Dirent.nonneg (List.mem_filter.mp hv).2

/-- The run of the loop, seen through its PIDs, is a run of insertions. -/
theorem runVisits_slots (fuel : Nat) (vs : List Visit) (tables : Tables) :
    (runVisits fuel vs tables).map slots =
      Probe.insertAll processInfoSize pidHash fuel (pids vs) (slots tables) := by
  induction vs generalizing tables with
  | nil => rfl
  | cons v vs ih =>
    rw [runVisits_cons]
    cases hProcess : v.2.isProcess with
    | false =>
      rw [scanEntry_other hProcess, pids_cons_other hProcess]
      exact ih tables
    | true =>
      rw [scanEntry_process hProcess, pids_cons_process hProcess, Probe.insertAll,
        ← probe_eq_probe (Dirent.nonneg hProcess)]
      cases probe tables.processInfo v.2.pid fuel (pidHash v.2.pid) with
      | none => rfl
      | some index =>
        simp only [Option.map_some, Option.bind_some, ih]
        rw [slots_visited v.1 v.2 hProcess]

/-! ## The invariant over runs -/

/-- Every PID has one slot and is reached from its home slot, and the PIDs are those of `S`. -/
def TableInv (tables : Tables) (S : Finset Int) : Prop :=
  Probe.WellProbed processInfoSize pidHash (slots tables) ∧
    Probe.Holds processInfoSize (slots tables) S

theorem slots_initPids (mem : Tables) {i : Nat} (hi : i < processInfoSize) :
    slots (initPids mem) i = none := by
  rw [slots_eq_none_iff]
  simp [initPids, hi, ProcessInfo.setPid]

theorem tableInv_initPids (mem : Tables) : TableInv (initPids mem) ∅ := by
  have hFree : ∀ i < processInfoSize, slots (initPids mem) i = none :=
    fun i hi => slots_initPids mem hi
  exact ⟨Probe.wellProbed_of_free hFree, Probe.holds_of_free hFree⟩

theorem runVisits_invariant {fuel : Nat} {vs : List Visit} {tables tables' : Tables}
    {S : Finset Int} (hInv : TableInv tables S) (hRun : runVisits fuel vs tables = some tables') :
    TableInv tables' (S ∪ (pids vs).toFinset) ∧ Probe.Extends (slots tables) (slots tables') := by
  have hSlots := runVisits_slots fuel vs tables
  rw [hRun, Option.map_some] at hSlots
  obtain ⟨hw, hs, hExt⟩ :=
    Probe.insertAll_preserves processInfoSize_pos pidHash_lt hInv.1 hInv.2 hSlots.symm
  exact ⟨⟨hw, hs⟩, hExt⟩

theorem runVisits_start_invariant {fuel : Nat} {vs : List Visit} {mem tables : Tables}
    (hRun : runVisits fuel vs (initPids mem) = some tables) :
    TableInv tables (pids vs).toFinset := by
  have hInv := (runVisits_invariant (tableInv_initPids mem) hRun).1
  rwa [Finset.empty_union] at hInv

theorem runVisits_total {fuel : Nat} (hFuel : processInfoSize ≤ fuel) {vs : List Visit}
    (mem : Tables) (hDistinct : (pids vs).toFinset.card ≤ processInfoSize) :
    ∃ tables, runVisits fuel vs (initPids mem) = some tables := by
  have hInv := tableInv_initPids mem
  rw [← Finset.empty_union (pids vs).toFinset] at hDistinct
  obtain ⟨final, hFinal⟩ := Probe.insertAll_total processInfoSize_pos pidHash_lt hFuel
    hInv.1 hInv.2 hDistinct
  rw [← runVisits_slots] at hFinal
  obtain ⟨tables, hRun, -⟩ := Option.map_eq_some_iff.mp hFinal
  exact ⟨tables, hRun⟩

/-- What is known of the table when the PIDs `seen` have been visited. -/
structure TableOk (tables : Tables) (seen : List Int) : Prop where
  held_once : ∀ pid ∈ seen, ∃! i, i < processInfoSize ∧ (tables.processInfo i).pid = pid
  reached : ∀ pid ∈ seen, ∀ i < processInfoSize, (tables.processInfo i).pid = pid →
    ∃ d < processInfoSize, i = (pidHash pid + d) % processInfoSize ∧
      ∀ e < d, (tables.processInfo ((pidHash pid + e) % processInfoSize)).pid ≠ -1

theorem tableOk_of_inv {tables : Tables} {vs : List Visit}
    (hInv : TableInv tables (pids vs).toFinset) : TableOk tables (pids vs) := by
  obtain ⟨hw, hs⟩ := hInv
  constructor
  · intro pid hMem
    have hPid := pids_nonneg hMem
    obtain ⟨i, hi, hHeld⟩ := (hs pid).mp (List.mem_toFinset.mpr hMem)
    refine ⟨i, ⟨hi, (slots_eq_some_iff hPid).mp hHeld⟩, ?_⟩
    rintro j ⟨hj, hHeld'⟩
    exact hw.unique j hj i hi pid ((slots_eq_some_iff hPid).mpr hHeld') hHeld
  · intro pid hMem i hi hHeld
    obtain ⟨d, hd, hOccupied⟩ := hw.path i hi pid ((slots_eq_some_iff (pids_nonneg hMem)).mpr hHeld)
    refine ⟨d % processInfoSize, Nat.mod_lt _ processInfoSize_pos, ?_, ?_⟩
    · rwa [Nat.add_mod_mod]
    · intro e he
      have hShort := he.trans_le (Nat.mod_le d processInfoSize)
      exact fun hFree => hOccupied e hShort (slots_eq_none_iff.mpr hFree)

/-- One step of a run whose PIDs have their slots at `slot`: the probe stops there, and
afterwards the table is in order and no PID has moved. -/
structure StepOk (slot : Int → Nat) (fuel : Nat) (before : List Visit) (v : Visit)
    (tables tables' : Tables) : Prop where
  probe_stops : v.2.isProcess = true →
    probe tables.processInfo v.2.pid fuel (pidHash v.2.pid) = some (slot v.2.pid)
  table_ok : TableOk tables' (pids (before ++ [v]))
  at_slot : ∀ pid ∈ pids (before ++ [v]), (tables'.processInfo (slot pid)).pid = pid
  kept : ∀ i < processInfoSize, (tables.processInfo i).pid ≠ -1 →
    (tables'.processInfo i).pid = (tables.processInfo i).pid

/-- Every PID of the run has one slot of its own, and every step of the run respects it. -/
def PidTableCorrect (fuel : Nat) (mem : Tables) (scans : List Scan) : Prop :=
  ∃ slot : Int → Nat,
    (∀ pid ∈ pids (visits (-1) scans), slot pid < processInfoSize) ∧
    (∀ pid ∈ pids (visits (-1) scans), ∀ pid' ∈ pids (visits (-1) scans),
      slot pid = slot pid' → pid = pid') ∧
    ∀ before v after, visits (-1) scans = before ++ v :: after →
      ∃ tables tables', runVisits fuel before (initPids mem) = some tables ∧
        scanEntry fuel v.1 tables v.2 = some tables' ∧
        StepOk slot fuel before v tables tables'

theorem stepOk_of_run {slot : Int → Nat} {fuel : Nat} {before after : List Visit} {v : Visit}
    {mem tables tables' final : Tables}
    (hBefore : runVisits fuel before (initPids mem) = some tables)
    (hStep : scanEntry fuel v.1 tables v.2 = some tables')
    (hAfter : runVisits fuel after tables' = some final)
    (hSlot : ∀ pid i, 0 ≤ pid → i < processInfoSize → slots final i = some pid → slot pid = i) :
    StepOk slot fuel before v tables tables' := by
  have hInv := runVisits_start_invariant hBefore
  have hOne : runVisits fuel [v] tables = some tables' := by
    rw [runVisits_cons, hStep]
    rfl
  obtain ⟨hInv', hKept⟩ := runVisits_invariant hInv hOne
  rw [← List.toFinset_append, ← pids_append] at hInv'
  obtain ⟨-, hLater⟩ := runVisits_invariant hInv' hAfter
  constructor
  · intro hProcess
    rw [scanEntry_process hProcess] at hStep
    obtain ⟨i, hProbe, hTables⟩ := Option.map_eq_some_iff.mp hStep
    have hPid := Dirent.nonneg hProcess
    have hHeld : slots tables' i = some v.2.pid := by
      rw [← hTables, slots_visited v.1 v.2 hProcess, Function.update_self]
    have hLib := hProbe
    rw [probe_eq_probe hPid, ← Nat.mod_eq_of_lt (pidHash_lt v.2.pid)] at hLib
    have hi := (Probe.probe_stops processInfoSize_pos hLib).1
    rw [hProbe, hSlot v.2.pid i hPid hi (hLater.some hHeld)]
  · exact tableOk_of_inv hInv'
  · intro pid hMem
    have hPid := pids_nonneg hMem
    obtain ⟨i, hi, hHeld⟩ := (hInv'.2 pid).mp (List.mem_toFinset.mpr hMem)
    rw [hSlot pid i hPid hi (hLater.some hHeld)]
    exact (slots_eq_some_iff hPid).mp hHeld
  · intro i hi hOccupied
    have hSame := hKept i (fun hFree => hOccupied (slots_eq_none_iff.mp hFree))
    have hNone : (tables'.processInfo i).pid ≠ -1 := fun hFree => by
      rw [slots_eq_none_iff.mpr hFree] at hSame
      exact hOccupied (slots_eq_none_iff.mp hSame.symm)
    rw [slots, slots, if_neg hNone, if_neg hOccupied] at hSame
    exact Option.some.inj hSame

/-- The PID table over a whole run: while at most 1031 distinct PIDs occur, every probe
stops below 1031, and every PID is held by one slot that never changes. -/
theorem pidTable_correct {fuel : Nat} (hFuel : processInfoSize ≤ fuel) (mem : Tables)
    (scans : List Scan)
    (hDistinct : (pids (visits (-1) scans)).toFinset.card ≤ processInfoSize) :
    PidTableCorrect fuel mem scans := by
  classical
  obtain ⟨final, hFinal⟩ := runVisits_total hFuel mem hDistinct
  have hInv := runVisits_start_invariant hFinal
  let slot : Int → Nat := fun pid =>
    if h : ∃ i < processInfoSize, slots final i = some pid then h.choose else 0
  have hSlot : ∀ pid i, 0 ≤ pid → i < processInfoSize → slots final i = some pid →
      slot pid = i := by
    intro pid i _ hi hHeld
    have hExists : ∃ i < processInfoSize, slots final i = some pid := ⟨i, hi, hHeld⟩
    have hChosen := hExists.choose_spec
    simp only [slot, dif_pos hExists]
    exact hInv.1.unique _ hChosen.1 i hi pid hChosen.2 hHeld
  have hHeld : ∀ pid ∈ pids (visits (-1) scans),
      slot pid < processInfoSize ∧ slots final (slot pid) = some pid := by
    intro pid hMem
    obtain ⟨i, hi, hi'⟩ := (hInv.2 pid).mp (List.mem_toFinset.mpr hMem)
    rw [hSlot pid i (pids_nonneg hMem) hi hi']
    exact ⟨hi, hi'⟩
  refine ⟨slot, fun pid hMem => (hHeld pid hMem).1, ?_, ?_⟩
  · intro pid hMem pid' hMem' he
    have hOne := (hHeld pid hMem).2
    rw [he, (hHeld pid' hMem').2] at hOne
    exact (Option.some.inj hOne).symm
  · intro before v after hVisits
    rw [hVisits, runVisits_append] at hFinal
    obtain ⟨tables, hBefore, hRest⟩ := Option.bind_eq_some_iff.mp hFinal
    rw [runVisits_cons] at hRest
    obtain ⟨tables', hStep, hAfter⟩ := Option.bind_eq_some_iff.mp hRest
    exact ⟨tables, tables', hBefore, hStep, stepOk_of_run hBefore hStep hAfter hSlot⟩

/-! ## Listings by number -/

/-- The entry of process `k`, with the given contents of its `stat` file. -/
def numbered (k : Nat) (hk : k < 2 ^ 31) (stat : Option (List UInt8)) : Dirent where
  dName := ⟨decimal k, fun h => absurd (decimal_isdigit k 0 h) (by decide)⟩
  stat := stat
  pid_nonneg _ := by
    rw [atoi_decimal hk]
    exact Int.natCast_nonneg k

@[simp] theorem numbered_pid (k : Nat) (hk : k < 2 ^ 31) (stat : Option (List UInt8)) :
    (numbered k hk stat).pid = k := atoi_decimal hk

@[simp] theorem numbered_isProcess (k : Nat) (hk : k < 2 ^ 31) (stat : Option (List UInt8)) :
    (numbered k hk stat).isProcess = true := by
  obtain ⟨c, rest, hDecimal, hDigit⟩ := decimal_head k
  simp [Dirent.isProcess, numbered, hDecimal, hDigit]

/-- The listing of the processes `0, ..., n - 1`, none of whose `stat` files can be read. -/
def firstProcesses (n : Nat) (hn : n < 2 ^ 31) : Scan :=
  (List.finRange n).map fun k : Fin n => numbered k.val (k.isLt.trans hn) none

theorem pids_firstProcesses (n : Nat) (hn : n < 2 ^ 31) (sample : Int) :
    pids (visits sample [firstProcesses n hn]) =
      (List.finRange n).map fun k : Fin n => (k.val : Int) := by
  simp [pids, visits, firstProcesses, List.filter_map, Function.comp_def]

theorem card_firstProcesses (n : Nat) (hn : n < 2 ^ 31) (sample : Int) :
    (pids (visits sample [firstProcesses n hn])).toFinset.card = n := by
  rw [pids_firstProcesses, List.toFinset_card_of_nodup, List.length_map, List.length_finRange]
  apply (List.nodup_finRange n).map
  intro i j h
  exact Fin.ext (Int.ofNat.inj h)

/-- Tables of zeroes, as `calloc` returns them. -/
def zeroTables : Tables where
  processInfo _ := ⟨0, 0, 0, 0, 0, 0, 0, false, List.replicate 128 0⟩
  samples _ _ := ⟨0, 0⟩

/-- A full table of 1031 PIDs. -/
theorem pidTable_correct_full :
    PidTableCorrect processInfoSize zeroTables [firstProcesses processInfoSize (by decide)] :=
  pidTable_correct (Nat.le_refl _) zeroTables _ (card_firstProcesses _ _ _).le

/-! ## Termination -/

theorem runVisits_terminates_iff (mem : Tables) (vs : List Visit) :
    (∃ fuel tables, runVisits fuel vs (initPids mem) = some tables) ↔
      (pids vs).toFinset.card ≤ processInfoSize := by
  constructor
  · rintro ⟨fuel, tables, hRun⟩
    have hInv := runVisits_start_invariant hRun
    exact hInv.1.card_le hInv.2
  · intro hDistinct
    exact ⟨processInfoSize, runVisits_total (Nat.le_refl _) mem hDistinct⟩

theorem gather_hangs {mem : Tables} {maxSamples : Nat} {scans : List Scan}
    (hDistinct : processInfoSize < (pids (visits (-1) (executed maxSamples scans))).toFinset.card)
    (fuel : Nat) : gather fuel maxSamples (-1) scans (initPids mem) = none := by
  rw [gather_start]
  cases hRun : runVisits fuel (visits (-1) (executed maxSamples scans)) (initPids mem) with
  | none => rfl
  | some tables =>
    have hLe := (runVisits_terminates_iff mem _).mp ⟨fuel, tables, hRun⟩
    omega

/-- The gathering loop gets through every probe of the run exactly when at most 1031
distinct PIDs occur in the listings it makes. -/
theorem gather_terminates_iff (mem : Tables) (maxSamples : Nat) (scans : List Scan) :
    (∃ fuel final, gather fuel maxSamples (-1) scans (initPids mem) = some final) ↔
      (pids (visits (-1) (executed maxSamples scans))).toFinset.card ≤ processInfoSize := by
  rw [← runVisits_terminates_iff mem]
  constructor
  · rintro ⟨fuel, final, hRun⟩
    rw [gather_start] at hRun
    obtain ⟨tables, hTables, -⟩ := Option.map_eq_some_iff.mp hRun
    exact ⟨fuel, tables, hTables⟩
  · rintro ⟨fuel, tables, hTables⟩
    exact ⟨fuel, _, by rw [gather_start, hTables]; rfl⟩

/-- The probe for the last of 1032 PIDs never stops. -/
theorem gather_hangs_full : ¬ ∀ (mem : Tables) (maxSamples : Nat) (scans : List Scan),
    ∃ fuel final, gather fuel maxSamples (-1) scans (initPids mem) = some final := by
  intro h
  obtain ⟨fuel, final, hRun⟩ := h zeroTables 0 [firstProcesses 1032 (by decide)]
  rw [gather_hangs] at hRun
  · cases hRun
  · rw [executed, List.take_of_length_le (by simp), card_firstProcesses]
    decide

end DebugCode.ProcessWatcher
