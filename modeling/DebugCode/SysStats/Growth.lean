import DebugCode.SysStats.Buffer

/-!
# What the latency test takes for growth

`test_cpu_loads` subtracts the statistics of successive reads. Every statistic is a counter
modulo 2³², and a difference of two of them is right as long as the counter grew by less
than 2³¹.

* `get_readSysStats`: a statistic is its counter, wrapped.
* `deltas_eq`: the differences, and their sum, are those of the counters.
-/

namespace DebugCode.SysStats

open Lib

/-- The counters that the lines of `/proc/stat` show. -/
structure Counters where
  user : ℕ
  nice : ℕ
  sys : ℕ
  idle : ℕ
  iowait : ℕ
  irq : ℕ
  softirq : ℕ
  ctxt : ℕ
  intr : List ℕ

namespace Counters

/-- The numbers of the `cpu` line that are read. -/
def cpu (c : Counters) : List ℕ :=
  [c.user, c.nice, c.sys, c.idle, c.iowait, c.irq, c.softirq]

/-- What a statistic counts: for `irqs`, all numbers of the `intr` line together. -/
def get (c : Counters) : Field → ℕ
  | .user => c.user
  | .nice => c.nice
  | .sys => c.sys
  | .idle => c.idle
  | .iowait => c.iowait
  | .irq => c.irq
  | .softirq => c.softirq
  | .ctxt => c.ctxt
  | .irqs => c.intr.sum

theorem cpu_getElem? (c : Counters) {f : Field} (hCount : f.count = 7) :
    c.cpu[f.place - 1]? = some (c.get f) := by
  cases f <;> first | rfl | cases hCount

end Counters

/-- A word, blanks, and numbers in front of something else. -/
def textLine (word : List UInt8) (blanks : ℕ) (vs : List ℕ) (rest : List UInt8) : List UInt8 :=
  word ++ List.replicate blanks 32 ++ row vs ++ rest

/-- The lines of a file that begin with the word of a statistic. -/
def linesOf (f : Field) (file : List UInt8) : List CString :=
  (wholeLines file).filter (beginsWith f.word)

/-- The contents of `/proc/stat`: there is one line of every kind among others, it fits the
buffer, and shows the counters. Behind the numbers there may be more that is not read. -/
structure ProcStat (file : List UInt8) (c : Counters) : Prop where
  unsplit : Unsplit file
  fits : Fits file
  cpu : ∃ text blanks rest, linesOf .user file = [text] ∧ rest.head?.any isdigit = false ∧
    text.bytes = textLine (ascii "cpu") blanks c.cpu rest
  ctxt : ∃ text blanks rest, linesOf .ctxt file = [text] ∧ rest.head?.any isdigit = false ∧
    text.bytes = textLine (ascii "ctxt") blanks [c.ctxt] rest
  intr : ∃ text rest, linesOf .irqs file = [text] ∧
    rest.head?.any (fun b => isdigit b || b = 32) = false ∧
    text.bytes = textLine (ascii "intr") 0 c.intr rest
  cpu_lt : ∀ v ∈ c.cpu, v < 2 ^ 63
  ctxt_lt : c.ctxt < 2 ^ 63
  intr_lt : ∀ n ∈ c.intr, n < 2 ^ 63

/-- No counter falls, and none grows by 2³¹ or more, nor do those of the `cpu` line together. -/
structure Growth (c₁ c₂ : Counters) : Prop where
  le : ∀ f, c₁.get f ≤ c₂.get f
  lt : ∀ f, c₂.get f - c₁.get f < 2 ^ 31
  total_lt : c₂.cpu.sum - c₁.cpu.sum < 2 ^ 31

/-! ## The differences -/

/-- `s2.f - s1.f` -/
def diff (s1 s2 : Stats) (f : Field) : Int := toInt (s2.get f - s1.get f)

/-- A sum of two values of type `int`. -/
def addInt (x y : Int) : Int := toInt (x + y)

/-- `total`, before it is converted to `double`. -/
def cpuTotal (s1 s2 : Stats) : Int :=
  addInt (addInt (addInt (addInt (addInt (addInt (diff s1 s2 .user) (diff s1 s2 .nice))
    (diff s1 s2 .sys)) (diff s1 s2 .idle)) (diff s1 s2 .iowait)) (diff s1 s2 .irq))
      (diff s1 s2 .softirq)

/-! ## What is read -/

/-- The text sets a statistic as the only one with its word. -/
theorem lastSet_of_linesOf {sets : CString → Field → Option Int}
    (hOther : ∀ text f, beginsWith f.word text = false → sets text f = none)
    {file : List UInt8} {f : Field} {text : CString} (hLines : linesOf f file = [text]) :
    lastSet sets (wholeLines file) f = sets text f := by
  have hFilter : ∀ texts : List CString,
      lastSet sets texts f = lastSet sets (texts.filter (beginsWith f.word)) f := by
    intro texts
    induction texts with
    | nil => rfl
    | cons t texts ih =>
      rw [lastSet_cons, ih]
      cases hBegins : beginsWith f.word t with
      | true => rw [List.filter_cons_of_pos hBegins, lastSet_cons]
      | false =>
        rw [List.filter_cons_of_neg (by simp [hBegins]), hOther t f hBegins, Option.or_none]
  rw [hFilter, show (wholeLines file).filter (beginsWith f.word) = [text] from hLines,
    lastSet_singleton]

namespace LatencyTest

/-- The numbers of a line, behind a word that fits. -/
theorem scanLine_of_line {text : CString} {word : List UInt8} {blanks v : ℕ} {vs : List ℕ}
    {rest : List UInt8} (hText : text.bytes = textLine word blanks (v :: vs) rest)
    (hWord : ∀ c ∈ word, isspace c = false) (hSome : word ≠ []) (hLength : word.length ≤ 9)
    (hEnd : rest.head?.any isdigit = false) :
    scanLine (vs.length + 1) text =
      .word word :: (v :: vs).map fun v => .int (clampLong false v) := by
  have hBlank : List.replicate blanks 32 ++ (row (v :: vs) ++ rest) =
      32 :: (List.replicate blanks 32 ++ (decimal v ++ (row vs ++ rest))) := by
    rw [row_cons, List.cons_append, List.append_cons, ← List.replicate_succ',
      List.replicate_succ, List.cons_append, List.append_assoc]
  have hSplit : text.bytes =
      word ++ 32 :: (List.replicate blanks 32 ++ (decimal v ++ (row vs ++ rest))) := by
    rw [hText, textLine, List.append_assoc, List.append_assoc, hBlank]
  rw [scanLine, hSplit, scanWord_of_blank hWord hSome hLength]
  simp only
  rw [← hBlank, scan_ints_blanks]
  exact congrArg _ (scan_ints (v :: vs) hEnd)

section

variable {file : List UInt8} {c : Counters}

/-- A statistic comes from the line of its kind. -/
theorem get_of_linesOf (h : ProcStat file c) {f : Field} {text : CString}
    (hLines : linesOf f file = [text]) {v : Int} (hSets : sets text f = some v) :
    (readSysStats file).get f = v := by
  have hOther : ∀ text f, beginsWith f.word text = false → sets text f = none :=
    fun _ _ => sets_of_other
  have hLast := sameLast_of_fits hOther h.unsplit h.fits initial f
  rw [lastSet_of_linesOf hOther hLines, hSets, ← get_foldl get_assign] at hLast
  exact hLast

theorem beginsWith_of_linesOf {f : Field} {text : CString} (hLines : linesOf f file = [text]) :
    beginsWith f.word text = true := by
  have hMem : text ∈ linesOf f file := hLines ▸ List.mem_singleton_self text
  exact (List.mem_filter.mp hMem).2

theorem get_cpu (h : ProcStat file c) {f : Field} (hCount : f.count = 7) :
    (readSysStats file).get f = toInt (c.get f) := by
  obtain ⟨text, blanks, rest, hLines, hEnd, hText⟩ := h.cpu
  have hLine : linesOf f file = [text] := by
    rcases f.count_cases with ⟨-, hWord, -⟩ | rfl | rfl
    · rw [linesOf, hWord]
      exact hLines
    · cases hCount
    · cases hCount
  apply get_of_linesOf h hLine
  have hWord : ∀ c ∈ ascii "cpu", isspace c = false := by simp [ascii_cpu, isspace]
  have hScan := scanLine_of_line hText hWord (List.cons_ne_nil _ _) (by simp [ascii_cpu]) hEnd
  have hLength : (scanLine 7 text).length = 8 := congrArg List.length hScan
  have hLt : c.get f < 2 ^ 63 := h.cpu_lt _ (List.mem_of_getElem? (c.cpu_getElem? hCount))
  have hValue : intAt (scanLine 7 text) f.place = some (toInt (clampLong false (c.get f))) := by
    refine (congrArg (intAt · f.place) hScan).trans ?_
    cases f <;> first | rfl | cases hCount
  have hIrqs : f ≠ .irqs := by
    rintro rfl
    cases hCount
  rw [clampLong_of_lt hLt] at hValue
  rw [sets, if_pos (beginsWith_of_linesOf hLine), if_neg hIrqs, hCount, if_pos hLength, hValue]

theorem get_ctxt (h : ProcStat file c) : (readSysStats file).get .ctxt = toInt c.ctxt := by
  obtain ⟨text, blanks, rest, hLines, hEnd, hText⟩ := h.ctxt
  apply get_of_linesOf h hLines
  have hWord : ∀ c ∈ ascii "ctxt", isspace c = false := by simp [ascii_ctxt, isspace]
  have hScan := scanLine_of_line hText hWord (List.cons_ne_nil _ _) (by simp [ascii_ctxt]) hEnd
  have hLength : (scanLine 1 text).length = 2 := congrArg List.length hScan
  have hValue : intAt (scanLine 1 text) 1 = some (toInt (clampLong false c.ctxt)) :=
    congrArg (intAt · 1) hScan
  rw [clampLong_of_lt h.ctxt_lt] at hValue
  have hSets : sets text .ctxt = if (scanLine 1 text).length = 2 then intAt (scanLine 1 text) 1
      else some 0 := if_pos (beginsWith_of_linesOf hLines)
  rw [hSets, if_pos hLength, hValue]

theorem get_irqs (h : ProcStat file c) : (readSysStats file).get .irqs = toInt c.intr.sum := by
  obtain ⟨text, rest, hLines, hEnd, hText⟩ := h.intr
  apply get_of_linesOf h hLines
  have hDigit : rest.head?.any isdigit = false := by
    cases hHead : rest.head? with
    | none => rfl
    | some b => simp_all
  have hBlank : rest.head? ≠ some 32 := by
    intro hHead
    rw [hHead] at hEnd
    cases hEnd
  have hSum : intrSum text = toInt (counted c.intr) := by
    rw [textLine, List.replicate_zero, List.append_nil] at hText
    rw [intrSum_row hText hDigit, numbers_of_not_blank hBlank, List.sum_nil, Int.add_zero]
  have hSets : sets text .irqs = some (intrSum text) := if_pos (beginsWith_of_linesOf hLines)
  rw [hSets, hSum, counted_of_lt h.intr_lt]

theorem get_readSysStats (h : ProcStat file c) (f : Field) :
    (readSysStats file).get f = toInt (c.get f) := by
  rcases f.count_cases with ⟨hCount, -⟩ | rfl | rfl
  · exact get_cpu h hCount
  · exact get_ctxt h
  · exact get_irqs h

end

/-! ## Growth -/

variable {file₁ file₂ : List UInt8} {c₁ c₂ : Counters}

theorem diff_eq (h₁ : ProcStat file₁ c₁) (h₂ : ProcStat file₂ c₂) (hGrowth : Growth c₁ c₂)
    (f : Field) :
    diff (readSysStats file₁) (readSysStats file₂) f = (c₂.get f : Int) - c₁.get f := by
  have hLe := hGrowth.le f
  have hLt := hGrowth.lt f
  rw [diff, get_readSysStats h₁, get_readSysStats h₂, toInt_toInt_sub_toInt]
  apply toInt_of_nonneg
  · omega
  · omega

/-- The differences of two successive reads are the growth of the counters, and `total` is
the growth of those of the `cpu` line together. -/
theorem deltas_eq (h₁ : ProcStat file₁ c₁) (h₂ : ProcStat file₂ c₂) (hGrowth : Growth c₁ c₂) :
    (∀ f, diff (readSysStats file₁) (readSysStats file₂) f = (c₂.get f : Int) - c₁.get f) ∧
      cpuTotal (readSysStats file₁) (readSysStats file₂) = (c₂.cpu.sum : Int) - c₁.cpu.sum := by
  have hDiff := diff_eq h₁ h₂ hGrowth
  refine ⟨hDiff, ?_⟩
  have hTotal := hGrowth.total_lt
  have hUser := hGrowth.le .user
  have hNice := hGrowth.le .nice
  have hSys := hGrowth.le .sys
  have hIdle := hGrowth.le .idle
  have hIowait := hGrowth.le .iowait
  have hIrq := hGrowth.le .irq
  have hSoftirq := hGrowth.le .softirq
  simp only [cpuTotal, addInt, toInt_toInt_add, hDiff]
  simp only [Counters.cpu, Counters.get, List.sum_cons, List.sum_nil] at *
  rw [toInt_of_nonneg]
  · push_cast
    omega
  · omega
  · omega

/-- A file that shows the counters and nothing else. -/
def statFile (c : Counters) : List UInt8 :=
  textLine (ascii "cpu") 1 c.cpu [10] ++ textLine (ascii "ctxt") 0 [c.ctxt] [10] ++
    textLine (ascii "intr") 0 c.intr [10]

/-- The user time is about to pass 2³², the interrupts 2³¹. -/
def earlier : Counters := ⟨4294967290, 0, 7, 100, 0, 0, 0, 50, [2147483646, 1, 0]⟩

def later : Counters := ⟨4294967300, 0, 9, 188, 0, 0, 0, 70, [2147483650, 2, 3]⟩

theorem procStat_earlier : ProcStat (statFile earlier) earlier := by
  have hShort : ∀ line ∈ lines 10 (statFile earlier), line.length < 4096 := by decide +kernel
  obtain ⟨hUnsplit, hFits⟩ := unsplit_and_fits hShort
  exact ⟨hUnsplit, hFits, ⟨_, 1, [10], rfl, rfl, rfl⟩, ⟨_, 0, [10], rfl, rfl, rfl⟩,
    ⟨_, [10], rfl, rfl, rfl⟩, by decide, by decide, by decide⟩

theorem procStat_later : ProcStat (statFile later) later := by
  have hShort : ∀ line ∈ lines 10 (statFile later), line.length < 4096 := by decide +kernel
  obtain ⟨hUnsplit, hFits⟩ := unsplit_and_fits hShort
  exact ⟨hUnsplit, hFits, ⟨_, 1, [10], rfl, rfl, rfl⟩, ⟨_, 0, [10], rfl, rfl, rfl⟩,
    ⟨_, [10], rfl, rfl, rfl⟩, by decide, by decide, by decide⟩

theorem growth_later : Growth earlier later := by
  refine ⟨?_, ?_, by decide⟩
  · intro f
    cases f <;> decide
  · intro f
    cases f <;> decide

/-- The counters grow by 10, 2 and 88, and the interrupts by 8. -/
theorem deltas_wrapping :
    diff (readSysStats (statFile earlier)) (readSysStats (statFile later)) .irqs = 8 ∧
      cpuTotal (readSysStats (statFile earlier)) (readSysStats (statFile later)) = 100 := by
  obtain ⟨hDiff, hTotal⟩ := deltas_eq procStat_earlier procStat_later growth_later
  exact ⟨hDiff .irqs, hTotal⟩

end LatencyTest

end DebugCode.SysStats
