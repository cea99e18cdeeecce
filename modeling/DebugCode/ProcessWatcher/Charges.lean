import DebugCode.ProcessWatcher.StatLine
import DebugCode.ProcessWatcher.Summary

/-!
# What a process is charged with

A scan reads the `stat` line of a process into its slot and records the differences to the
values that the slot held before.

* `scanEntry_text`: a line that is parsed is charged with its own columns, and one that is
  not leaves the slot as it was.
* `deltas_le_iff`: the differences are at most the values read exactly when no PID shows
  smaller values than before. Slots are found by PID alone, so a new process is charged
  against the one that had its PID before.
-/

namespace DebugCode.ProcessWatcher

open Lib

/-! ## One line -/

/-- `sscanf` returns 3 exactly for a line whose name has no white space. -/
theorem sscanf_text_length_iff (line : StatLine) :
    (sscanf line.text statFormat).length = 3 ↔ ∀ c ∈ line.comm, isspace c = false := by
  rw [sscanf_text]
  constructor
  · intro hThree c hc
    by_contra hSpace
    obtain ⟨w, hWord⟩ := line.visible.scan_text_of_space ⟨c, hc, Bool.not_eq_false _ ▸ hSpace⟩
    rw [hWord] at hThree
    cases hThree
  · intro hWord
    rw [line.visible.scan_text_of_word hWord]
    rfl

/-- The name that is stored is the one between the parentheses. -/
theorem record_name (sample : Int) (info : ProcessInfo) {comm : List UInt8} (hNul : 0 ∉ comm)
    (hLength : comm.length ≤ 15) (usr sys : UInt32) :
    (CString.ofBuffer (info.record sample ⟨40 :: (comm ++ [41]), usr, sys⟩).name).bytes =
      comm := by
  have hInner : (40 :: (comm ++ [41])).dropLast.drop 1 = comm := by
    rw [← List.cons_append, List.dropLast_concat, List.drop_one, List.tail_cons]
  have hString : CString.ofBuffer comm = ⟨comm, hNul⟩ := CString.ofBuffer_bytes ⟨comm, hNul⟩
  show (CString.ofBuffer (strncpy (CString.ofBuffer ((40 :: (comm ++ [41])).dropLast.drop 1))
    128)).bytes = comm
  rw [hInner, hString, CString.ofBuffer_strncpy (hLength.trans_lt (by decide))]

/-- A line whose name has white space is one that `sscanf` does not return 3 for. -/
theorem exists_space_of_length {line : StatLine}
    (hLength : ¬ (sscanf line.text statFormat).length = 3) :
    ∃ c ∈ line.comm, isspace c = true := by
  by_contra hNone
  apply hLength
  rw [sscanf_text_length_iff]
  intro c hc
  by_contra hSpace
  exact hNone ⟨c, hc, Bool.not_eq_false _ ▸ hSpace⟩

/-- A scan of a line in the format of the kernel, the loop having found a slot: where `sscanf`
returns 3, the slot gets the process's own times and name, and otherwise nothing but the PID of
the slot is written. -/
theorem scanEntry_text (line : StatLine) {d : Dirent} (hStat : d.stat = some line.text)
    (hProcess : d.isProcess = true) {fuel index : Nat} {sample : Int} {tables : Tables}
    (hProbe : probe tables.processInfo d.pid fuel (pidHash d.pid) = some index) :
    ∃ tables', scanEntry fuel sample tables d = some tables' ∧
      if (sscanf line.text statFormat).length = 3 then
        (tables'.processInfo index).usr = UInt32.ofNat line.utime ∧
          (tables'.processInfo index).sys = UInt32.ofNat line.stime ∧
          (CString.ofBuffer (tables'.processInfo index).name).bytes = line.comm
      else tables' = tables.setPid index d.pid := by
  have hParsed : d.parsed = scanStat line.text := by rw [Dirent.parsed, hStat, Option.bind_some]
  have hStep : scanEntry fuel sample tables d = some (visited sample d index tables) := by
    rw [scanEntry_process hProcess, hProbe, Option.map_some]
  refine ⟨_, hStep, ?_⟩
  split_ifs with hThree
  · have hWord := (sscanf_text_length_iff line).mp hThree
    rw [visited, hParsed, scanStat_of_word hWord]
    simp only [Tables.record, Function.update_self]
    exact ⟨rfl, rfl, record_name sample _ line.comm_nul_free line.comm_length _ _⟩
  · rw [visited, hParsed, scanStat_of_space (exists_space_of_length hThree)]

/-- The line of a process whose own name is in parentheses. -/
def sdPam : StatLine where
  pid := 812
  comm := ascii "(sd-pam)"
  state := 68
  fields := [811, 811, 811, 0, -1, 1077936448, 53, 0, 0, 0]
  utime := 250
  stime := 75
  rest := ascii " 0 0 20\n"
  comm_nul_free := by simp [ascii]
  comm_length := by simp [ascii]
  state_letter := rfl
  fields_length := rfl
  utime_lt := by decide
  stime_lt := by decide
  rest_end := rfl

/-- The line of a process that is named after the fields of its own line. -/
def imitation : StatLine where
  pid := 813
  comm := ascii "a) S 1 2 3"
  state := 82
  fields := [1, 813, 813, 0, -1, 4194304, 50, 0, 3, 0]
  utime := 4
  stime := 6
  rest := ascii " 0 0 20\n"
  comm_nul_free := by simp [ascii]
  comm_length := by simp [ascii]
  state_letter := rfl
  fields_length := rfl
  utime_lt := by decide
  stime_lt := by decide
  rest_end := rfl

/-- The search of a PID that is in no slot yet ends where it begins. -/
theorem probe_initPids (pid : Int) :
    probe (initPids zeroTables).processInfo pid 1 (pidHash pid) = some (pidHash pid) := by
  have hFree : ((initPids zeroTables).processInfo (pidHash pid)).pid = -1 := by
    show (if pidHash pid < processInfoSize then _ else _ : ProcessInfo).pid = -1
    rw [if_pos (pidHash_lt pid)]
    rfl
  rw [probe, hFree, if_pos rfl, ite_self]

/-- The first of the two lines is charged with its columns, and the second with nothing. -/
theorem scanEntry_sdPam_imitation :
    (∃ tables, scanEntry 1 0 (initPids zeroTables)
        (numbered 812 (by decide) (some sdPam.text)) = some tables ∧
      (tables.processInfo (pidHash 812)).usr = 250 ∧
      (tables.processInfo (pidHash 812)).sys = 75 ∧
      (CString.ofBuffer (tables.processInfo (pidHash 812)).name).bytes = ascii "(sd-pam)") ∧
    scanEntry 1 0 (initPids zeroTables) (numbered 813 (by decide) (some imitation.text)) =
      some ((initPids zeroTables).setPid (pidHash 813) 813) := by
  have hHome : ∀ k (hk : k < 2 ^ 31) line,
      probe (initPids zeroTables).processInfo (numbered k hk line).pid 1
        (pidHash (numbered k hk line).pid) = some (pidHash k) := by
    intro k hk line
    rw [numbered_pid]
    exact probe_initPids k
  constructor
  · obtain ⟨tables, hStep, hCharged⟩ := scanEntry_text sdPam rfl
      (numbered_isProcess 812 (by decide) _) (hHome 812 (by decide) _)
    have hLength : (sscanf sdPam.text statFormat).length = 3 :=
      (sscanf_text_length_iff sdPam).mpr (by decide +kernel)
    rw [if_pos hLength] at hCharged
    exact ⟨tables, hStep, hCharged⟩
  · obtain ⟨tables, hStep, hCharged⟩ := scanEntry_text imitation rfl
      (numbered_isProcess 813 (by decide) _) (hHome 813 (by decide) _)
    have hLength : ¬ (sscanf imitation.text statFormat).length = 3 := by
      rw [sscanf_text_length_iff]
      intro hWord
      have hSpace := hWord 32 (by decide +kernel)
      cases hSpace
    rw [if_neg hLength, numbered_pid] at hCharged
    rw [hStep, hCharged]
    rfl

/-! ## Histories of a PID -/

/-- Behind a line the slot has the counters of that line. -/
theorem Column.replay_concat_info (c : Column) (ps : Parses) (x : Int × Stat) :
    (c.replay (ps ++ [x])).info.usr = x.2.usr ∧ (c.replay (ps ++ [x])).info.sys = x.2.sys := by
  rw [replay_append]
  exact ⟨rfl, rfl⟩

/-- The visit that a line comes from. -/
theorem exists_visit_of_parses {pid : Int} {vs : List Visit} {ps qs : Column.Parses}
    {y : Int × Stat} (hSplit : parses pid vs = ps ++ y :: qs) :
    ∃ before v after, vs = before ++ v :: after ∧ parses pid before = ps ∧
      parsedBy pid v = [y] := by
  induction vs generalizing ps with
  | nil => simp at hSplit
  | cons v vs ih =>
    have hOne : parsedBy pid v = [] ∨ ∃ x, parsedBy pid v = [x] := by
      unfold parsedBy
      split_ifs
      · cases v.2.parsed with
        | none => exact Or.inl rfl
        | some stat => exact Or.inr ⟨_, rfl⟩
      · exact Or.inl rfl
    rw [parses_cons] at hSplit
    rcases hOne with hNone | ⟨x, hLine⟩
    · rw [hNone, List.nil_append] at hSplit
      obtain ⟨before, w, after, rfl, hBefore, hw⟩ := ih hSplit
      refine ⟨v :: before, w, after, rfl, ?_, hw⟩
      rw [parses_cons, hNone, List.nil_append, hBefore]
    · rw [hLine] at hSplit
      cases ps with
      | nil =>
        obtain ⟨rfl, -⟩ := List.cons.inj hSplit
        exact ⟨[], v, vs, rfl, rfl, hLine⟩
      | cons p ps =>
        obtain ⟨rfl, hRest⟩ := List.cons.inj hSplit
        obtain ⟨before, w, after, rfl, hBefore, hw⟩ := ih hRest
        refine ⟨v :: before, w, after, rfl, ?_, hw⟩
        rw [parses_cons, hLine, hBefore]
        rfl

/-- The differences that a run of visits records for the samples are at most the values they
come from. -/
def DeltasBounded (fuel : Nat) (mem : Tables) (vs : List Visit) : Prop :=
  ∀ before v after, vs = before ++ v :: after → ∀ tables tables' index stat,
    runVisits fuel before (initPids mem) = some tables →
    scanEntry fuel v.1 tables v.2 = some tables' → v.2.isProcess = true →
    probe tables.processInfo v.2.pid fuel (pidHash v.2.pid) = some index →
    v.2.parsed = some stat → v.1 ≠ -1 →
      (tables'.samples v.1.toNat index).deltaUsr ≤ stat.usr ∧
        (tables'.samples v.1.toNat index).deltaSys ≤ stat.sys

/-- Of two successive lines of the PID, the later one being read for a sample, the later one
does not have the smaller counters. -/
def Growing (ps : Column.Parses) : Prop :=
  ∀ before x y after, ps = before ++ x :: y :: after → y.1 ≠ -1 →
    x.2.usr ≤ y.2.usr ∧ x.2.sys ≤ y.2.sys

/-- The counters in the slot of a PID whose lines were `ps`, the memory having been cleared. -/
def lastUsr (ps : Column.Parses) : UInt32 := (ps.getLast?.map fun x => x.2.usr).getD 0

def lastSys (ps : Column.Parses) : UInt32 := (ps.getLast?.map fun x => x.2.sys).getD 0

theorem replay_last {c : Column} (hUsr : c.info.usr = 0) (hSys : c.info.sys = 0)
    (ps : Column.Parses) : (c.replay ps).info.usr = lastUsr ps ∧
      (c.replay ps).info.sys = lastSys ps := by
  rcases List.eq_nil_or_concat' ps with rfl | ⟨qs, x, rfl⟩
  · exact ⟨hUsr, hSys⟩
  · obtain ⟨hLastUsr, hLastSys⟩ := c.replay_concat_info qs x
    rw [hLastUsr, hLastSys, lastUsr, lastSys, List.getLast?_concat]
    exact ⟨rfl, rfl⟩

/-- An unsigned difference is at most its minuend exactly when it does not wrap. -/
theorem sub_le_iff (a b : UInt32) : a - b ≤ a ↔ b ≤ a := by
  rw [UInt32.le_iff_toNat_le, UInt32.le_iff_toNat_le, UInt32.toNat_sub]
  have ha := a.toNat_lt
  have hb := b.toNat_lt
  omega

section

variable {fuel : Nat} {mem tables tables' : Tables} {before : List Visit} {v : Visit}
  {index : Nat} {stat : Stat}

/-- What a visit records: the differences to the last line of the same PID. -/
theorem cell_of_visit (hZero : ∀ i < processInfoSize,
      (mem.processInfo i).usr = 0 ∧ (mem.processInfo i).sys = 0)
    (hBefore : runVisits fuel before (initPids mem) = some tables)
    (hStep : scanEntry fuel v.1 tables v.2 = some tables') (hProcess : v.2.isProcess = true)
    (hProbe : probe tables.processInfo v.2.pid fuel (pidHash v.2.pid) = some index)
    (hParsed : v.2.parsed = some stat) (hSample : v.1 ≠ -1) :
    tables'.samples v.1.toNat index =
      ⟨stat.usr - lastUsr (parses v.2.pid before), stat.sys - lastSys (parses v.2.pid before)⟩ := by
  have hPid := Dirent.nonneg hProcess
  have hRun : runVisits fuel (before ++ [v]) (initPids mem) = some tables' := by
    rw [runVisits_append, hBefore, Option.bind_some, runVisits_cons, hStep]
    rfl
  rw [scanEntry_process hProcess, hProbe, Option.map_some] at hStep
  obtain rfl := Option.some.inj hStep
  rw [probe_eq_probe hPid, ← Nat.mod_eq_of_lt (pidHash_lt v.2.pid)] at hProbe
  have hIndex := (Probe.probe_stops processInfoSize_pos hProbe).1
  have hHeld : slots (visited v.1 v.2 index tables) index = some v.2.pid := by
    rw [slots_visited v.1 v.2 hProcess, Function.update_self]
  have hLine : parsedBy v.2.pid v = [(v.1, stat)] := by
    simp [parsedBy, hProcess, hParsed]
  have hColumn := column_final hRun hIndex hHeld
  rw [parses_append, parses_cons, hLine, parses_nil, List.append_nil,
    Column.replay_append] at hColumn
  have hCell := congrArg (fun c : Column => c.cells v.1.toNat) hColumn
  obtain ⟨hUsr, hSys⟩ := replay_last (c := mem.column index) (hZero index hIndex).1
    (hZero index hIndex).2 (parses v.2.pid before)
  simp only [Tables.column, Column.setPid, Column.replay_cons, Column.replay_nil, Column.record,
    ne_eq, hSample, not_false_eq_true, if_true, Function.update_self, ProcessInfo.delta] at hCell
  rw [hCell]
  exact congrArg₂ Sample.mk (congrArg (stat.usr - ·) hUsr) (congrArg (stat.sys - ·) hSys)

theorem parsedBy_eq_singleton {pid : Int} {y : Int × Stat} (hLine : parsedBy pid v = [y]) :
    v.2.isProcess = true ∧ v.2.pid = pid ∧ v.2.parsed = some y.2 ∧ v.1 = y.1 := by
  unfold parsedBy at hLine
  split_ifs at hLine with hOwn
  cases hParsed : v.2.parsed with
  | none => simp [hParsed] at hLine
  | some stat =>
    simp only [hParsed, Option.map_some, Option.toList_some, List.cons.injEq, and_true] at hLine
    rw [← hLine]
    exact ⟨hOwn.1, hOwn.2, rfl, rfl⟩

variable {vs : List Visit} {final : Tables}
  (hZero : ∀ i < processInfoSize, (mem.processInfo i).usr = 0 ∧ (mem.processInfo i).sys = 0)

include hZero

/-- A line behind which the counters fall shows up as a difference that wraps. -/
theorem growing_of_deltasBounded (hRun : runVisits fuel vs (initPids mem) = some final)
    (hBounded : DeltasBounded fuel mem vs) (pid : Int) : Growing (parses pid vs) := by
  intro ps x y qs hSplit hSample
  rw [List.append_cons] at hSplit
  obtain ⟨before, v, after, rfl, hPs, hLine⟩ := exists_visit_of_parses hSplit
  obtain ⟨hProcess, hPid, hParsed, hNow⟩ := parsedBy_eq_singleton hLine
  rw [runVisits_append] at hRun
  obtain ⟨tables, hBefore, hRest⟩ := Option.bind_eq_some_iff.mp hRun
  rw [runVisits_cons] at hRest
  obtain ⟨tables', hStep, -⟩ := Option.bind_eq_some_iff.mp hRest
  have hProbe := hStep
  rw [scanEntry_process hProcess] at hProbe
  obtain ⟨index, hIndex, -⟩ := Option.map_eq_some_iff.mp hProbe
  rw [← hNow] at hSample
  have hDelta := hBounded before v after rfl tables tables' index y.2 hBefore hStep hProcess
    hIndex hParsed hSample
  rw [cell_of_visit hZero hBefore hStep hProcess hIndex hParsed hSample, hPid, hPs, lastUsr,
    lastSys, List.getLast?_concat] at hDelta
  exact ⟨(sub_le_iff _ _).mp hDelta.1, (sub_le_iff _ _).mp hDelta.2⟩

theorem deltasBounded_of_growing (hGrowing : ∀ pid, Growing (parses pid vs)) :
    DeltasBounded fuel mem vs := by
  intro before v after hVisits tables tables' index stat hBefore hStep hProcess hIndex hParsed
    hSample
  have hLine : parsedBy v.2.pid v = [(v.1, stat)] := by
    simp [parsedBy, hProcess, hParsed]
  have hParses : parses v.2.pid vs = parses v.2.pid before ++
      (v.1, stat) :: parses v.2.pid after := by
    rw [hVisits, parses_append, parses_cons, hLine]
    rfl
  rw [cell_of_visit hZero hBefore hStep hProcess hIndex hParsed hSample, sub_le_iff, sub_le_iff]
  rcases List.eq_nil_or_concat' (parses v.2.pid before) with hFirst | ⟨ps, x, hPs⟩
  · rw [hFirst]
    exact ⟨UInt32.zero_le, UInt32.zero_le⟩
  · rw [hPs, List.append_assoc, List.singleton_append] at hParses
    rw [hPs, lastUsr, lastSys, List.getLast?_concat]
    exact hGrowing v.2.pid ps x (v.1, stat) _ hParses hSample

/-- With cleared tables, every difference recorded by a run is at most the value it comes
from exactly when the lines of every PID grow. The visits are any the loop gets through. -/
theorem deltas_le_iff (hRun : runVisits fuel vs (initPids mem) = some final) :
    DeltasBounded fuel mem vs ↔ ∀ pid, Growing (parses pid vs) :=
  ⟨growing_of_deltasBounded hZero hRun, deltasBounded_of_growing hZero⟩

end

/-! ## A PID that is used again -/

theorem zeroTables_counters (i : Nat) (_ : i < processInfoSize) :
    (zeroTables.processInfo i).usr = 0 ∧ (zeroTables.processInfo i).sys = 0 := ⟨rfl, rfl⟩

/-- The lines of two listings with the process `1` alone. -/
theorem parses_two {line₁ line₂ : List UInt8} {stat₁ stat₂ : Stat}
    (h₁ : scanStat line₁ = some stat₁) (h₂ : scanStat line₂ = some stat₂) (pid : Int) :
    parses pid (visits (-1) [loneScan line₁, loneScan line₂]) =
      if pid = 1 then [(-1, stat₁), (0, stat₂)] else [] := by
  have hLone : ∀ line, parsedIn pid (loneScan line) =
      if pid = 1 then (scanStat line).toList else [] := by
    intro line
    split_ifs with hPid
    · rw [hPid, parsedIn_loneScan]
    · have hOther : ¬ 1 = pid := fun h => hPid h.symm
      simp [parsedIn, loneScan, hOther]
  rw [visits, visits, visits, List.append_nil, parses_append, parses_scan, parses_scan, hLone,
    hLone, h₁, h₂]
  split_ifs
  · rfl
  · rfl

theorem runVisits_two (line₁ line₂ : List UInt8) : ∃ final, runVisits processInfoSize
    (visits (-1) [loneScan line₁, loneScan line₂]) (initPids zeroTables) = some final := by
  apply runVisits_total (Nat.le_refl _)
  exact (List.toFinset_card_le _).trans (by simp [pids, visits, loneScan, processInfoSize])

/-- What the two lines of the lone process show. -/
theorem scanStat_early :
    scanStat (ascii "1 (init) S 0 1 1 0 -1 4194560 100 200 10 20 5 7 1 2") =
      some ⟨ascii "(init)", 5, 7⟩ := by
  decide +kernel

theorem scanStat_late :
    scanStat (ascii "1 (init) S 0 1 1 0 -1 4194560 100 200 10 20 9 7 1 2") =
      some ⟨ascii "(init)", 9, 7⟩ := by
  decide +kernel

/-- The visits of the lone process stay within the bounds. -/
theorem deltas_le_lone : ∃ final, runVisits processInfoSize (visits (-1) loneScans)
      (initPids zeroTables) = some final ∧
    DeltasBounded processInfoSize zeroTables (visits (-1) loneScans) := by
  obtain ⟨final, hRun⟩ := runVisits_two
    (ascii "1 (init) S 0 1 1 0 -1 4194560 100 200 10 20 5 7 1 2")
    (ascii "1 (init) S 0 1 1 0 -1 4194560 100 200 10 20 9 7 1 2")
  refine ⟨final, hRun, (deltas_le_iff zeroTables_counters hRun).mpr ?_⟩
  intro pid ps x y qs hSplit hSample
  rw [parses_two scanStat_early scanStat_late] at hSplit
  split_ifs at hSplit
  · rcases ps with _ | ⟨p, _ | ⟨p', ps⟩⟩
    · cases hSplit
      decide
    · cases hSplit
    · simp at hSplit
  · simp at hSplit

/-- The process with PID 812 ends behind the baseline, and a new one gets its PID. -/
def reuseScans : List Scan :=
  [workerScan (ascii "1 (init) S 0 1 1 0 -1 4194560 100 200 10 20 5 7 1 2")
      (ascii "812 (old) S 1 812 812 0 -1 4194304 50 0 3 0 100 7 0 0"),
    workerScan (ascii "1 (init) S 0 1 1 0 -1 4194560 100 200 10 20 5 7 1 2")
      (ascii "812 (new) S 1 812 812 0 -1 4194304 50 0 3 0 5 7 0 0")]

theorem parses_reuseScans : parses 812 (visits (-1) reuseScans) =
    [(-1, ⟨ascii "(old)", 100, 7⟩), (0, ⟨ascii "(new)", 5, 7⟩)] := by
  have hOld : scanStat (ascii "812 (old) S 1 812 812 0 -1 4194304 50 0 3 0 100 7 0 0") =
      some ⟨ascii "(old)", 100, 7⟩ := by decide +kernel
  have hNew : scanStat (ascii "812 (new) S 1 812 812 0 -1 4194304 50 0 3 0 5 7 0 0") =
      some ⟨ascii "(new)", 5, 7⟩ := by decide +kernel
  rw [reuseScans, visits, visits, visits, List.append_nil, parses_append, parses_scan,
    parses_scan, parsedIn_workerScan, parsedIn_workerScan, hOld, hNew]
  rfl

/-- The new process is charged with `5 - 100`. -/
theorem deltas_wrap : ∃ final, runVisits processInfoSize (visits (-1) reuseScans)
      (initPids zeroTables) = some final ∧
    ¬ DeltasBounded processInfoSize zeroTables (visits (-1) reuseScans) := by
  obtain ⟨final, hRun⟩ : ∃ final, runVisits processInfoSize (visits (-1) reuseScans)
      (initPids zeroTables) = some final := by
    apply runVisits_total (Nat.le_refl _)
    exact (List.toFinset_card_le _).trans (by simp [pids, visits, reuseScans, workerScan,
      processInfoSize])
  refine ⟨final, hRun, fun hBounded => ?_⟩
  have hFell := (growing_of_deltasBounded zeroTables_counters hRun hBounded 812 [] _ _ []
    parses_reuseScans (by decide)).1
  exact absurd hFell (by decide)

end DebugCode.ProcessWatcher
