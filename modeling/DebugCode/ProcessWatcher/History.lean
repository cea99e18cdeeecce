import DebugCode.ProcessWatcher.PidTable

/-!
# The history of a slot

A slot and its column of the sample matrix change only when a `stat` line of the slot's
own process is parsed. So after any run they are the replay of the lines parsed for that
process, in order, on what the slot held at the start.

* `column_visited`: the step lemma.
* `column_run`: the slot of a PID after a run.
* `column_run_free`: a slot that is still free has not been touched.
-/

namespace DebugCode.ProcessWatcher

open Lib

/-- A slot with its column of the sample matrix. -/
@[ext] structure Column where
  info : ProcessInfo
  cells : Nat → Sample

def Tables.column (tables : Tables) (i : Nat) : Column where
  info := tables.processInfo i
  cells sample := tables.samples sample i

namespace Column

def setPid (pid : Int) (c : Column) : Column := { c with info := c.info.setPid pid }

def record (sample : Int) (stat : Stat) (c : Column) : Column where
  info := c.info.record sample stat
  cells :=
    if sample ≠ -1 then Function.update c.cells sample.toNat (c.info.delta stat) else c.cells

/-- The lines parsed for one process, each with its sample. -/
abbrev Parses : Type := List (Int × Stat)

def replay (c : Column) (ps : Parses) : Column := ps.foldl (fun c p => c.record p.1 p.2) c

@[simp] theorem replay_nil (c : Column) : c.replay [] = c := rfl

@[simp] theorem replay_cons (c : Column) (p : Int × Stat) (ps : Parses) :
    c.replay (p :: ps) = (c.record p.1 p.2).replay ps := rfl

theorem replay_append (c : Column) (ps qs : Parses) :
    c.replay (ps ++ qs) = (c.replay ps).replay qs := List.foldl_append

@[simp] theorem setPid_setPid (pid pid' : Int) (c : Column) :
    (c.setPid pid).setPid pid' = c.setPid pid' := rfl

theorem record_setPid (pid sample : Int) (stat : Stat) (c : Column) :
    (c.setPid pid).record sample stat = (c.record sample stat).setPid pid := rfl

theorem replay_setPid (pid : Int) (ps : Parses) (c : Column) :
    (c.setPid pid).replay ps = (c.replay ps).setPid pid := by
  induction ps generalizing c with
  | nil => rfl
  | cons p ps ih =>
    rw [replay_cons, record_setPid, ih, replay_cons]

theorem setPid_self {c : Column} {pid : Int} (h : c.info.pid = pid) : c.setPid pid = c := by
  subst h
  rfl

end Column

/-- The lines one visit parses for `pid`. -/
def parsedBy (pid : Int) (v : Visit) : Column.Parses :=
  if v.2.isProcess = true ∧ v.2.pid = pid then (v.2.parsed.map fun stat => (v.1, stat)).toList
  else []

/-- The lines parsed for `pid`, in the order of the visits. -/
def parses (pid : Int) (vs : List Visit) : Column.Parses := vs.flatMap (parsedBy pid)

@[simp] theorem parses_nil (pid : Int) : parses pid [] = [] := rfl

@[simp] theorem parses_cons (pid : Int) (v : Visit) (vs : List Visit) :
    parses pid (v :: vs) = parsedBy pid v ++ parses pid vs := rfl

theorem parses_append (pid : Int) (vs ws : List Visit) :
    parses pid (vs ++ ws) = parses pid vs ++ parses pid ws := List.flatMap_append

theorem column_setPid (tables : Tables) (index : Nat) (pid : Int) :
    (tables.setPid index pid).column index = (tables.column index).setPid pid := by
  simp [Tables.column, Tables.setPid, Column.setPid]

theorem column_setPid_of_ne (tables : Tables) {index i : Nat} (pid : Int) (h : i ≠ index) :
    (tables.setPid index pid).column i = tables.column i := by
  simp [Tables.column, Tables.setPid, h]

theorem column_record (sample : Int) (index : Nat) (stat : Stat) (tables : Tables) :
    (tables.record sample index stat).column index = (tables.column index).record sample stat := by
  apply Column.ext
  · simp [Tables.column, Tables.record, Column.record]
  · funext s
    by_cases hSample : sample = -1
    · simp [Tables.column, Tables.record, Column.record, hSample]
    · by_cases hs : s = sample.toNat
      · subst hs
        simp [Tables.column, Tables.record, Column.record, hSample]
      · simp [Tables.column, Tables.record, Column.record, hSample, hs]

theorem column_record_of_ne (sample : Int) {index i : Nat} (stat : Stat) (tables : Tables)
    (h : i ≠ index) : (tables.record sample index stat).column i = tables.column i := by
  apply Column.ext
  · simp [Tables.column, Tables.record, h]
  · funext s
    by_cases hSample : sample = -1
    · simp [Tables.column, Tables.record, hSample]
    · by_cases hs : s = sample.toNat
      · subst hs
        simp [Tables.column, Tables.record, hSample, h]
      · simp [Tables.column, Tables.record, hSample, hs]

/-- The step lemma: the slot of the visited process replays the line, no other changes. -/
theorem column_visited (v : Visit) (hProcess : v.2.isProcess = true) (index : Nat)
    (tables : Tables) : (visited v.1 v.2 index tables).column index =
      ((tables.column index).replay (parsedBy v.2.pid v)).setPid v.2.pid := by
  unfold visited
  cases hParsed : v.2.parsed with
  | none => simp [parsedBy, hParsed, column_setPid]
  | some stat =>
    simp only [parsedBy, hProcess, hParsed, and_self, if_true, Option.map_some, Option.toList_some,
      Column.replay_cons, Column.replay_nil]
    rw [column_record, column_setPid, Column.record_setPid]

theorem column_visited_of_ne (v : Visit) {index i : Nat} (tables : Tables) (h : i ≠ index) :
    (visited v.1 v.2 index tables).column i = tables.column i := by
  unfold visited
  split
  · exact column_setPid_of_ne tables v.2.pid h
  · rw [column_record_of_ne v.1 _ _ h, column_setPid_of_ne tables v.2.pid h]

theorem parsedBy_other {v : Visit} {pid : Int} (hOther : v.2.isProcess = true → v.2.pid ≠ pid) :
    parsedBy pid v = [] := by
  unfold parsedBy
  split
  · rename_i h
    exact absurd h.2 (hOther h.1)
  · rfl

/-- A visit of a process with the slot it ends at, and what later runs make of that slot. -/
theorem scanEntry_index {fuel : Nat} {v : Visit} {vs : List Visit} {tables tables' final : Tables}
    {S : Finset Int} (hProcess : v.2.isProcess = true) (hInv : TableInv tables S)
    (hStep : scanEntry fuel v.1 tables v.2 = some tables')
    (hRest : runVisits fuel vs tables' = some final) :
    ∃ index < processInfoSize, tables' = visited v.1 v.2 index tables ∧
      slots final index = some v.2.pid := by
  have hOne : runVisits fuel [v] tables = some tables' := by
    rw [runVisits_cons, hStep]
    rfl
  have hLater := (runVisits_invariant (runVisits_invariant hInv hOne).1 hRest).2
  rw [scanEntry_process hProcess] at hStep
  obtain ⟨index, hProbe, hTables⟩ := Option.map_eq_some_iff.mp hStep
  rw [probe_eq_probe (Dirent.nonneg hProcess), ← Nat.mod_eq_of_lt (pidHash_lt v.2.pid)] at hProbe
  refine ⟨index, (Probe.probe_stops processInfoSize_pos hProbe).1, hTables.symm, hLater.some ?_⟩
  rw [← hTables, slots_visited v.1 v.2 hProcess, Function.update_self]

/-- What a step can do: leave the tables alone, or visit the slot that its process keeps. -/
theorem scanEntry_cases {fuel : Nat} {v : Visit} {vs : List Visit} {tables tables' final : Tables}
    {S : Finset Int} (hInv : TableInv tables S)
    (hStep : scanEntry fuel v.1 tables v.2 = some tables')
    (hRest : runVisits fuel vs tables' = some final) :
    (v.2.isProcess = false ∧ tables' = tables) ∨
      (v.2.isProcess = true ∧ ∃ index < processInfoSize,
        tables' = visited v.1 v.2 index tables ∧ slots final index = some v.2.pid) := by
  cases hProcess : v.2.isProcess with
  | false =>
    rw [scanEntry_other hProcess] at hStep
    exact Or.inl ⟨rfl, (Option.some.inj hStep).symm⟩
  | true => exact Or.inr ⟨rfl, scanEntry_index hProcess hInv hStep hRest⟩

theorem scanEntry_invariant {fuel : Nat} {v : Visit} {tables tables' : Tables} {S : Finset Int}
    (hInv : TableInv tables S) (hStep : scanEntry fuel v.1 tables v.2 = some tables') :
    TableInv tables' (S ∪ (pids [v]).toFinset) := by
  apply (runVisits_invariant hInv _).1
  · exact fuel
  · rw [runVisits_cons, hStep]
    rfl

/-- The run lemma: the slot that holds `pid` at the end is the replay of the lines parsed
for `pid` on what the slot held at the start. -/
theorem column_run {fuel : Nat} {vs : List Visit} {tables final : Tables} {S : Finset Int}
    (hInv : TableInv tables S) (hRun : runVisits fuel vs tables = some final) {i : Nat}
    (hi : i < processInfoSize) {pid : Int} (hHeld : slots final i = some pid) :
    final.column i = ((tables.column i).replay (parses pid vs)).setPid pid := by
  induction vs generalizing tables S with
  | nil =>
    obtain rfl := Option.some.inj hRun
    rw [parses_nil, Column.replay_nil, Column.setPid_self]
    unfold slots at hHeld
    split at hHeld
    · cases hHeld
    · exact Option.some.inj hHeld
  | cons v vs ih =>
    have hFinal := (runVisits_invariant hInv hRun).1.1
    rw [runVisits_cons] at hRun
    obtain ⟨tables', hStep, hRest⟩ := Option.bind_eq_some_iff.mp hRun
    rw [ih (scanEntry_invariant hInv hStep) hRest, parses_cons, Column.replay_append]
    rcases scanEntry_cases hInv hStep hRest with
      ⟨hProcess, rfl⟩ | ⟨hProcess, index, hIndex, rfl, hOwn⟩
    · rw [parsedBy_other (by simp [hProcess]), Column.replay_nil]
    · by_cases hiIndex : i = index
      · subst hiIndex
        rw [hHeld] at hOwn
        obtain rfl := Option.some.inj hOwn
        rw [column_visited v hProcess, Column.replay_setPid, Column.setPid_setPid]
      · have hNe : v.2.pid ≠ pid := by
          rintro rfl
          exact hiIndex (hFinal.unique i hi index hIndex _ hHeld hOwn)
        rw [column_visited_of_ne v tables hiIndex, parsedBy_other fun _ => hNe, Column.replay_nil]

theorem column_run_free {fuel : Nat} {vs : List Visit} {tables final : Tables} {S : Finset Int}
    (hInv : TableInv tables S) (hRun : runVisits fuel vs tables = some final) {i : Nat}
    (hFree : slots final i = none) : final.column i = tables.column i := by
  induction vs generalizing tables S with
  | nil =>
    obtain rfl := Option.some.inj hRun
    rfl
  | cons v vs ih =>
    rw [runVisits_cons] at hRun
    obtain ⟨tables', hStep, hRest⟩ := Option.bind_eq_some_iff.mp hRun
    rw [ih (scanEntry_invariant hInv hStep) hRest]
    rcases scanEntry_cases hInv hStep hRest with ⟨-, rfl⟩ | ⟨-, index, -, rfl, hOwn⟩
    · rfl
    · apply column_visited_of_ne
      rintro rfl
      rw [hFree] at hOwn
      cases hOwn

end DebugCode.ProcessWatcher
