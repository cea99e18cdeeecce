import DebugCode.Benchmark.Functions

/-!
# Dropping the caches before a timed read

`write_settings` and `drop_caches`, with the outcomes of `fopen` and `fprintf` given by an
environment, and the log that `benchmark_read_large_file` leaves of them.

* `writeSettings_fst`: the error code of `write_settings` is lost, so `drop_caches` never fails.
* `readCalls_log`: the log of a run in which no other call fails.
* `readsCold_iff`: when a return of 0 means that all timed passes have read on cold caches, and
  when a setting that fails makes the function fail.
-/

namespace DebugCode.Benchmark

open Lib

/-! ## The functions -/

/-- The outcomes of `fopen` and `fprintf` for a value, at each call of `drop_caches`. -/
structure Settings where
  fopen : DropPoint → String → Bool
  fprintf : DropPoint → String → Int

def writeSettings (settings : Settings) (p : DropPoint) (file value : String) : Int × Event :=
  let ret : Int :=
    if settings.fopen p value then
      if settings.fprintf p value < 0 then -2 else 0
    else -1
  -- `ret` is not what the function returns
  (0, .setting file value (ret == 0))

/-- `/proc/sys/vm/drop_caches` -/
def dropCachesFile : String := "/proc/sys/vm/drop_caches"

/-- The caches that are dropped: the page cache, dentries and inodes, and both. -/
def dropCachesValues : List String := ["1", "2", "3"]

def dropCaches (settings : Settings) : Drop := fun p =>
  let pagecache := writeSettings settings p dropCachesFile "1"
  if pagecache.1 < 0 then (pagecache.1, [pagecache.2])
  else
    let inodes := writeSettings settings p dropCachesFile "2"
    if inodes.1 < 0 then (inodes.1, [inodes.2, pagecache.2])
    else
      let both := writeSettings settings p dropCachesFile "3"
      (both.1, [both.2, inodes.2, pagecache.2])

/-! ## The abstract property -/

/-- Each timed pass of a log, the newest event first, has its data written before it, and
between the two all three settings. -/
def ColdPasses : List Event → Prop
  | [] => True
  | .timedPass j :: log =>
    (.dataWritten j ∈ log ∧ ∀ value ∈ dropCachesValues,
      .setting dropCachesFile value true ∈ log.takeWhile (· ≠ .dataWritten j)) ∧ ColdPasses log
  | _ :: log => ColdPasses log

/-- No setting of the log has failed. -/
def NoneFailed (log : List Event) : Prop := ∀ file value, .setting file value false ∉ log

/-- A setting is written when the file can be opened and printed to. -/
def Settings.written (settings : Settings) (p : DropPoint) (value : String) : Bool :=
  settings.fopen p value && !decide (settings.fprintf p value < 0)

/-- All three settings are written. -/
def Settings.AllWritten (settings : Settings) (p : DropPoint) : Prop :=
  ∀ value ∈ dropCachesValues, settings.written p value = true

/-! ## What `drop_caches` does -/

section

variable (settings : Settings) (p : DropPoint)

/-- `write_settings` returns 0, whatever happens. -/
theorem writeSettings_fst (file value : String) :
    (writeSettings settings p file value).1 = 0 := rfl

theorem writeSettings_snd (file value : String) :
    (writeSettings settings p file value).2 =
      .setting file value (settings.written p value) := by
  unfold writeSettings Settings.written
  cases settings.fopen p value with
  | false => rfl
  | true =>
    by_cases hPrinted : settings.fprintf p value < 0
    · simp [hPrinted]
    · simp [hPrinted]

/-- The settings of a call of `drop_caches`, the newest first. -/
theorem dropCaches_snd :
    (dropCaches settings p).2 = (dropCachesValues.map fun value =>
      Event.setting dropCachesFile value (settings.written p value)).reverse := by
  simp only [dropCaches, writeSettings_fst, lt_irrefl, if_false, writeSettings_snd]
  rfl

/-- The tests of `drop_caches`, and of its callers, are dead code. -/
theorem dropCaches_fst : (dropCaches settings p).1 = 0 := by
  simp only [dropCaches, writeSettings_fst, lt_irrefl, if_false]

theorem mem_dropCaches {e : Event} :
    e ∈ (dropCaches settings p).2 ↔
      ∃ value ∈ dropCachesValues, .setting dropCachesFile value (settings.written p value) = e := by
  rw [dropCaches_snd, List.mem_reverse, List.mem_map]

theorem dropCaches_written {value : String} (hValue : value ∈ dropCachesValues) :
    .setting dropCachesFile value true ∈ (dropCaches settings p).2 ↔
      settings.written p value = true := by
  rw [mem_dropCaches]
  constructor
  · rintro ⟨value', -, hSame⟩
    obtain ⟨-, rfl, hWritten⟩ := Event.setting.inj hSame
    exact hWritten
  · intro hWritten
    exact ⟨value, hValue, by rw [hWritten]⟩

theorem dropCaches_noneFailed :
    NoneFailed (dropCaches settings p).2 ↔ settings.AllWritten p := by
  constructor
  · intro hNone value hValue
    by_contra hFailed
    have hFalse : settings.written p value = false := Bool.eq_false_iff.mpr hFailed
    refine hNone dropCachesFile value ?_
    rw [mem_dropCaches]
    exact ⟨value, hValue, by rw [hFalse]⟩
  · intro hAll file value hFailed
    obtain ⟨value', hValue, hSame⟩ := (mem_dropCaches settings p).mp hFailed
    obtain ⟨-, rfl, hFalse⟩ := Event.setting.inj hSame
    rw [hAll value' hValue] at hFalse
    cases hFalse

end

/-! ## The log of a run -/

/-- What a call adds to the log. -/
def Call.events (drop : Drop) : Call → List Event
  | .drop p => (drop p).2
  | .closeWrite j => [.dataWritten j]
  | .count j => [.timedPass j]
  | _ => []

/-- The state has the log. -/
def World.Logs (log : List Event) (w : World) : Prop := w.log = log

section

variable {drop : Drop} {env : Env} {params : Params} {log : List Event}

theorem succeed_log (c : Call) (w : World) :
    (succeed drop env params c w).log = c.events drop ++ w.log := by
  cases c <;> rfl

theorem logs_cons {c : Call} {cs : List Call} {K : World → Prop}
    (hRest : (readScript drop env params).Triple (fun _ _ => True)
      (World.Logs (c.events drop ++ log)) cs K) :
    (readScript drop env params).Triple (fun _ _ => True) (World.Logs log) (c :: cs) K := by
  refine .cons (fun _ _ _ => trivial) ?_ hRest
  intro w hLog _
  have hSucceed : (succeed drop env params c w).log = c.events drop ++ w.log := succeed_log c w
  rw [hLog] at hSucceed
  exact hSucceed

theorem logs_loop {call : Nat → Call} (hSilent : ∀ i, (call i).events drop = []) (n : Nat) :
    (readScript drop env params).Triple (fun _ _ => True) (World.Logs log)
      ((List.range n).map call) (World.Logs log) := by
  refine .loop_map (I := fun _ => World.Logs log) (fun _ _ _ _ _ => trivial) ?_
  intro i _ w hLog _
  have hSucceed : (succeed drop env params (call i) w).log = (call i).events drop ++ w.log :=
    succeed_log (call i) w
  rw [hSilent i, hLog] at hSucceed
  exact hSucceed

end

section

variable (settings : Settings)

/-- What pass `j` adds to the log. -/
def passLog (j : Nat) : List Event :=
  (dropCaches settings (.afterPass j)).2 ++
    .timedPass j :: ((dropCaches settings (.beforePass j)).2 ++ [.dataWritten j])

/-- The log after `j` passes. -/
def logUpTo : Nat → List Event
  | 0 => (dropCaches settings .first).2
  | j + 1 => passLog settings j ++ logUpTo j

/-- The log of a run in which no other call fails. -/
def fullLog (repeats : Nat) : List Event :=
  (dropCaches settings .last).2 ++ logUpTo settings repeats

variable {settings} {env : Env} {params : Params}

theorem readPass_log (j : Nat) :
    (readScript (dropCaches settings) env params).Triple (fun _ _ => True)
      (World.Logs (logUpTo settings j)) (readPass params j)
      (World.Logs (logUpTo settings (j + 1))) := by
  refine logs_cons <| logs_cons <| .append (logs_loop (fun _ => rfl) _) <| logs_cons <|
    logs_cons <| logs_cons <| logs_cons <| .append (logs_loop (fun _ => rfl) _) <| logs_cons <|
    logs_cons <| .nil fun w hLog => hLog.trans ?_
  simp [Call.events, logUpTo, passLog]

theorem readCalls_log :
    (readScript (dropCaches settings) env params).Triple (fun _ _ => True)
      (World.Logs []) (readCalls params) (World.Logs (fullLog settings params.repeats)) :=
  logs_cons <| logs_cons <|
    .append (.loop (I := fun j => World.Logs (logUpTo settings j)) fun j _ => readPass_log j) <|
    logs_cons <| logs_cons <| .nil fun _ hLog => hLog

end

/-! ### What the log says -/

theorem noneFailed_append {l l' : List Event} :
    NoneFailed (l ++ l') ↔ NoneFailed l ∧ NoneFailed l' := by
  simp only [NoneFailed, List.mem_append, not_or, forall_and]

/-- Settings do not matter to the passes after them. -/
theorem coldPasses_append {settings : Settings} {p : DropPoint} {log : List Event} :
    ColdPasses ((dropCaches settings p).2 ++ log) ↔ ColdPasses log := by
  rw [dropCaches_snd]
  exact Iff.rfl

theorem takeWhile_dropCaches (settings : Settings) (p : DropPoint) (j : Nat) (log : List Event) :
    ((dropCaches settings p).2 ++ .dataWritten j :: log).takeWhile (· ≠ .dataWritten j) =
      (dropCaches settings p).2 := by
  rw [List.takeWhile_append_of_pos]
  · simp
  · intro e he
    obtain ⟨value, -, rfl⟩ := (mem_dropCaches settings p).mp he
    rfl

section

variable (settings : Settings)

theorem coldPasses_logUpTo (n : Nat) :
    ColdPasses (logUpTo settings n) ↔ ∀ j < n, settings.AllWritten (.beforePass j) := by
  induction n with
  | zero =>
    have hFirst : ColdPasses ((dropCaches settings .first).2 ++ []) := coldPasses_append.mpr trivial
    rw [List.append_nil] at hFirst
    refine iff_of_true hFirst ?_
    intro j hj
    omega
  | succ n ih =>
    rw [Nat.forall_lt_succ_right, ← ih, logUpTo, passLog, List.append_assoc, coldPasses_append,
      List.cons_append, List.append_assoc, List.cons_append, List.nil_append, ColdPasses,
      takeWhile_dropCaches, coldPasses_append]
    have hData : Event.dataWritten n ∈
        (dropCaches settings (.beforePass n)).2 ++ .dataWritten n :: logUpTo settings n :=
      List.mem_append_right _ List.mem_cons_self
    have hSettings : (∀ value ∈ dropCachesValues, .setting dropCachesFile value true ∈
        (dropCaches settings (.beforePass n)).2) ↔ settings.AllWritten (.beforePass n) :=
      forall₂_congr fun value hValue => dropCaches_written settings _ hValue
    rw [hSettings, and_comm]
    exact and_congr_right fun _ => and_iff_right hData

theorem noneFailed_logUpTo (n : Nat) :
    NoneFailed (logUpTo settings n) ↔ settings.AllWritten .first ∧
      ∀ j < n, settings.AllWritten (.beforePass j) ∧ settings.AllWritten (.afterPass j) := by
  induction n with
  | zero =>
    rw [logUpTo, dropCaches_noneFailed]
    simp
  | succ n ih =>
    have hEvents : NoneFailed [.timedPass n] ∧ NoneFailed [.dataWritten n] := by
      simp [NoneFailed]
    have hSplit : logUpTo settings (n + 1) = (dropCaches settings (.afterPass n)).2 ++
        ([.timedPass n] ++ ((dropCaches settings (.beforePass n)).2 ++
          ([.dataWritten n] ++ logUpTo settings n))) := by
      simp [logUpTo, passLog]
    rw [hSplit]
    simp only [noneFailed_append, dropCaches_noneFailed, hEvents.1, hEvents.2, true_and, ih,
      Nat.forall_lt_succ_right]
    tauto

/-- The calls of `drop_caches` in a run. -/
theorem drop_mem_readCalls {params : Params} (p : DropPoint) :
    .drop p ∈ readCalls params ↔ p = .first ∨
      (∃ j < params.repeats, p = .beforePass j ∨ p = .afterPass j) ∨ p = .last := by
  simp [readCalls, readPass]

theorem noneFailed_fullLog (params : Params) :
    NoneFailed (fullLog settings params.repeats) ↔
      ∀ p, .drop p ∈ readCalls params → settings.AllWritten p := by
  rw [fullLog, noneFailed_append, dropCaches_noneFailed, noneFailed_logUpTo]
  constructor
  · rintro ⟨hLast, hFirst, hPasses⟩ p hCall
    rcases (drop_mem_readCalls p).mp hCall with rfl | ⟨j, hj, rfl | rfl⟩ | rfl
    · exact hFirst
    · exact (hPasses j hj).1
    · exact (hPasses j hj).2
    · exact hLast
  · intro hAll
    simp only [drop_mem_readCalls] at hAll
    refine ⟨hAll _ (.inr (.inr rfl)), hAll _ (.inl rfl), fun j hj => ⟨?_, ?_⟩⟩
    · exact hAll _ (.inr (.inl ⟨j, hj, .inl rfl⟩))
    · exact hAll _ (.inr (.inl ⟨j, hj, .inr rfl⟩))

end

/-! ## The timed passes of a run -/

/-- Some other call of a run of `benchmark_read_large_file` fails. -/
def OtherFails (env : Env) (params : Params) : Prop :=
  ∃ c ∈ readCalls params, fails noDrop env params c = true

section

variable (settings : Settings) {env : Env} {params : Params}

theorem fails_dropCaches (c : Call) :
    fails (dropCaches settings) env params c = fails noDrop env params c := by
  cases c with
  | drop p => simp [fails, dropCaches_fst, noDrop]
  | _ => rfl

/-- No other call fails: the function returns 0, and its log is complete. -/
theorem read_completes (hOther : ¬ OtherFails env params) :
    (result (benchmarkReadLargeFile (dropCaches settings) env params)).1 = .returned 0 ∧
      (result (benchmarkReadLargeFile (dropCaches settings) env params)).2.log =
        fullLog settings params.repeats := by
  have hNone : (readCalls params).find? (fails (dropCaches settings) env params) = none := by
    rw [List.find?_eq_none]
    intro c hc hFails
    rw [fails_dropCaches] at hFails
    exact hOther ⟨c, hc, hFails⟩
  rw [result, benchmarkReadLargeFile_follows, Script.run_exit]
  refine ⟨?_, readCalls_log.of_none rfl hNone⟩
  show Option.getD (Option.map exit (List.find? (fails (dropCaches settings) env params) _)) _ = _
  rw [hNone]
  rfl

/-- Some other call fails: the function returns a negative value, or a division traps. -/
theorem read_fails (hOther : OtherFails env params) (code : Int)
    (hReturn : (result (benchmarkReadLargeFile (dropCaches settings) env params)).1 =
      .returned code) : code < 0 := by
  obtain ⟨c, hc, hFails⟩ := hOther
  rw [← fails_dropCaches settings] at hFails
  rw [result, benchmarkReadLargeFile_follows, Script.run_exit] at hReturn
  cases hExit : (readCalls params).find? (readScript (dropCaches settings) env params).fails with
  | none => exact absurd hFails (List.find?_eq_none.mp hExit c hc)
  | some d =>
    rw [hExit] at hReturn
    have hCode : exit d = .returned code := hReturn
    cases d <;> simp [exit] at hCode <;> omega

end

/-- A return of 0 means cold caches in every timed pass exactly when another call fails, and there
is no such return, or the settings before each timed pass are written. A setting that fails means
a negative return exactly when another call fails, or none of the settings does. -/
theorem readsCold_iff (settings : Settings) (env : Env) (params : Params) :
    (((result (benchmarkReadLargeFile (dropCaches settings) env params)).1 = .returned 0 →
        ColdPasses (result (benchmarkReadLargeFile (dropCaches settings) env params)).2.log) ↔
      OtherFails env params ∨ ∀ j < params.repeats, settings.AllWritten (.beforePass j)) ∧
    ((¬ NoneFailed (result (benchmarkReadLargeFile (dropCaches settings) env params)).2.log →
        ∀ code, (result (benchmarkReadLargeFile (dropCaches settings) env params)).1 =
          .returned code → code < 0) ↔
      OtherFails env params ∨ ∀ p, .drop p ∈ readCalls params → settings.AllWritten p) := by
  by_cases hOther : OtherFails env params
  · have hNegative := read_fails settings hOther
    refine ⟨iff_of_true (fun hZero => ?_) (.inl hOther),
      iff_of_true (fun _ => hNegative) (.inl hOther)⟩
    exact absurd (hNegative 0 hZero) (lt_irrefl 0)
  · obtain ⟨hZero, hLog⟩ := read_completes settings hOther
    rw [hLog, hZero, or_iff_right hOther, or_iff_right hOther, ← noneFailed_fullLog]
    constructor
    · rw [fullLog, coldPasses_append, coldPasses_logUpTo]
      exact ⟨fun h => h rfl, fun h _ => h⟩
    · constructor
      · intro hNegative
        by_contra hFailed
        exact absurd (hNegative hFailed 0 rfl) (lt_irrefl 0)
      · intro hNone hFailed
        exact absurd hNone hFailed

/-- A `/proc/sys/vm/drop_caches` that cannot be opened. -/
def noSettings : Settings := ⟨fun _ _ => false, fun _ _ => 0⟩

/-- One pass, in which all other calls succeed and transfer everything. -/
theorem readsCold_noSettings :
    let r := result (benchmarkReadLargeFile (dropCaches noSettings)
      ⟨true, fun _ => true, fun _ _ => 2 ^ 20, fun _ => true, fun _ _ => 2 ^ 20⟩
      ⟨CString.literal "rawdata.dat", 2 ^ 20, 2 ^ 20, 1⟩)
    r.1 = .returned 0 ∧ ¬ ColdPasses r.2.log ∧ ¬ NoneFailed r.2.log := by
  have hFailed : ∀ p, ¬ noSettings.AllWritten p :=
    fun p hAll => Bool.false_ne_true (hAll "1" List.mem_cons_self)
  show _ ∧ ¬ ColdPasses (fullLog noSettings 1) ∧ ¬ NoneFailed (fullLog noSettings 1)
  refine ⟨rfl, ?_, ?_⟩
  · rw [fullLog, coldPasses_append, coldPasses_logUpTo]
    exact fun hAll => hFailed _ (hAll 0 Nat.one_pos)
  · rw [fullLog, noneFailed_append, dropCaches_noneFailed]
    exact fun hAll => hFailed _ hAll.1

end DebugCode.Benchmark
