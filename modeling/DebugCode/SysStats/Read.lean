import DebugCode.Lib.Lines
import DebugCode.Lib.Numbers

/-!
# Reading `/proc/stat`

`read_sys_stats` of `latency-test.c` and `hz-test.c`. The file comes through `fgets` into a
buffer of 4096 bytes, and whatever is in the buffer is taken for a line: a text that begins
with `"cpu "`, `"ctx"` or `"intr"` sets the statistics of that line. An `int` wraps.

The two programs differ in what a line with too few numbers does: the one clears the
statistics of the line, the other keeps those it has not read.

* `LatencyTest.get_assign`, `HzTest.get_assign`: what one text does to one statistic.
* `get_foldl`: after all texts a statistic is what the last of them set it to.
-/

namespace DebugCode.SysStats

open Lib

/-- `stats_t` -/
@[ext] structure Stats where
  user : Int
  nice : Int
  sys : Int
  idle : Int
  iowait : Int
  irq : Int
  softirq : Int
  ctxt : Int
  irqs : Int
deriving DecidableEq

/-- The members of `stats_t`. -/
inductive Field : Type
  | user | nice | sys | idle | iowait | irq | softirq | ctxt | irqs
deriving DecidableEq

def Stats.get (stat : Stats) : Field → Int
  | .user => stat.user
  | .nice => stat.nice
  | .sys => stat.sys
  | .idle => stat.idle
  | .iowait => stat.iowait
  | .irq => stat.irq
  | .softirq => stat.softirq
  | .ctxt => stat.ctxt
  | .irqs => stat.irqs

theorem Stats.ext_get {s t : Stats} (h : ∀ f, s.get f = t.get f) : s = t :=
  Stats.ext (h .user) (h .nice) (h .sys) (h .idle) (h .iowait) (h .irq) (h .softirq) (h .ctxt)
    (h .irqs)

/-! ## The lines -/

def cpuWord : CString := CString.literal "cpu "

def ctxWord : CString := CString.literal "ctx"

def intrWord : CString := CString.literal "intr"

theorem ascii_cpu : ascii "cpu" = [99, 112, 117] := rfl

theorem ascii_ctxt : ascii "ctxt" = [99, 116, 120, 116] := rfl

theorem ascii_intr : ascii "intr" = [105, 110, 116, 114] := rfl

theorem cpuWord_bytes : cpuWord.bytes = [99, 112, 117, 32] := rfl

theorem ctxWord_bytes : ctxWord.bytes = [99, 116, 120] := rfl

theorem intrWord_bytes : intrWord.bytes = ascii "intr" := rfl

/-- `strncmp(buffer, word, n) == 0`, where `n` is the length of the word. -/
def beginsWith (word text : CString) : Bool := strncmp text word word.strlen = 0

/-- The seven numbers go to their variables in order, as far as they were read. -/
def assignCpu (assigned : List Assigned) (stat : Stats) : Stats :=
  { stat with
    user := (intAt assigned 1).getD stat.user
    nice := (intAt assigned 2).getD stat.nice
    sys := (intAt assigned 3).getD stat.sys
    idle := (intAt assigned 4).getD stat.idle
    iowait := (intAt assigned 5).getD stat.iowait
    irq := (intAt assigned 6).getD stat.irq
    softirq := (intAt assigned 7).getD stat.softirq }

def assignCtxt (assigned : List Assigned) (stat : Stats) : Stats :=
  { stat with ctxt := (intAt assigned 1).getD stat.ctxt }

/-- The blanks in front of a number, and its digits, are skipped. -/
theorem length_dropWhile_lt {ptr : List UInt8} (hBlank : ptr.head? = some 32) :
    ((ptr.dropWhile (· = 32)).dropWhile isdigit).length < ptr.length := by
  obtain ⟨s, rfl⟩ := List.head?_eq_some_iff.mp hBlank
  have hDigits := List.length_dropWhile_le isdigit (s.dropWhile (· = 32))
  have hBlanks := List.length_dropWhile_le (fun c : UInt8 => decide (c = 32)) s
  rw [List.dropWhile_cons_of_pos (by simp), List.length_cons]
  omega

/-- `while (*ptr == ' ')`: skip the blanks, add the number, skip its digits. -/
def irqLoop (ptr : List UInt8) (irqs : Int) : Int :=
  if ptr.head? = some 32 then
    irqLoop ((ptr.dropWhile (· = 32)).dropWhile isdigit)
      (toInt (irqs + atoi (ptr.dropWhile (· = 32))))
  else irqs
termination_by ptr.length
decreasing_by
  rename_i hBlank
  exact length_dropWhile_lt hBlank

/-- The numbers behind `"intr"`, added up. -/
def intrSum (text : CString) : Int := irqLoop (text.bytes.drop 4) 0

def assignIntr (text : CString) (stat : Stats) : Stats := { stat with irqs := intrSum text }

namespace LatencyTest

/-- `sscanf(buffer, "%9s %d ...", ...)` with `n` numbers. -/
def scanLine (n : ℕ) (text : CString) : List Assigned :=
  match scanWord 9 text.bytes with
  | none => []
  | some (w, rest) => .word w :: scan (ints n) rest

def cpuLine (text : CString) (stat : Stats) : Stats :=
  let stat := assignCpu (scanLine 7 text) stat
  if (scanLine 7 text).length ≠ 8 then
    { stat with
      user := 0
      nice := 0
      sys := 0
      idle := 0
      iowait := 0
      irq := 0
      softirq := 0 }
  else stat

def ctxtLine (text : CString) (stat : Stats) : Stats :=
  let stat := assignCtxt (scanLine 1 text) stat
  if (scanLine 1 text).length ≠ 2 then { stat with ctxt := 0 } else stat

/-- The body of the loop. -/
def assign (text : CString) (stat : Stats) : Stats :=
  let stat := if beginsWith cpuWord text then cpuLine text stat else stat
  let stat := if beginsWith ctxWord text then ctxtLine text stat else stat
  if beginsWith intrWord text then assignIntr text stat else stat

/-- `memset(&stat, 0, sizeof(stat))` -/
def initial : Stats := ⟨0, 0, 0, 0, 0, 0, 0, 0, 0⟩

def readTexts (texts : List CString) : Stats :=
  texts.foldl (fun stat text => assign text stat) initial

end LatencyTest

namespace HzTest

/-- `sscanf(buffer, "%s %d ...", ...)` with `n` numbers. -/
def scanLine (n : ℕ) (text : CString) : List Assigned :=
  scan (.word true :: ints n) text.bytes

/-- The word does not fit the array of ten characters it is stored in. -/
def overruns (text : CString) : Bool :=
  (beginsWith cpuWord text || beginsWith ctxWord text) &&
    match scanLine 1 text with
    | .word w :: _ => 10 ≤ w.length
    | _ => false

def assign (text : CString) (stat : Stats) : Stats :=
  let stat := if beginsWith cpuWord text then assignCpu (scanLine 7 text) stat else stat
  let stat := if beginsWith ctxWord text then assignCtxt (scanLine 1 text) stat else stat
  if beginsWith intrWord text then assignIntr text stat else stat

/-- The body of the loop; `none` where a word is written past the end of its array. -/
def step (stat : Stats) (text : CString) : Option Stats :=
  if overruns text then none else some (assign text stat)

/-- `init` is what the uninitialised `stat` holds. -/
def readTexts (init : Stats) (texts : List CString) : Option Stats := texts.foldlM step init

end HzTest

/-- What the buffer holds in the rounds of the loop. -/
def buffers (file : List UInt8) : List CString := (fgetsAll 10 4096 file).map CString.ofBuffer

def LatencyTest.readSysStats (file : List UInt8) : Stats := readTexts (buffers file)

def HzTest.readSysStats (init : Stats) (file : List UInt8) : Option Stats :=
  readTexts init (buffers file)

/-! ## What a text sets -/

/-- The word that the line of a statistic begins with. -/
def Field.word : Field → CString
  | .ctxt => ctxWord
  | .irqs => intrWord
  | _ => cpuWord

/-- How many numbers are read from that line. -/
def Field.count : Field → ℕ
  | .ctxt => 1
  | .irqs => 0
  | _ => 7

/-- The place of the statistic among them, counted from 1. -/
def Field.place : Field → ℕ
  | .user => 1
  | .nice => 2
  | .sys => 3
  | .idle => 4
  | .iowait => 5
  | .irq => 6
  | .softirq => 7
  | .ctxt => 1
  | .irqs => 0

/-- What `latency-test` sets a statistic to where it reads a text. -/
def LatencyTest.sets (text : CString) (f : Field) : Option Int :=
  if beginsWith f.word text then
    if f = .irqs then some (intrSum text)
    else if (scanLine f.count text).length = f.count + 1 then intAt (scanLine f.count text) f.place
    else some 0
  else none

/-- What `hz-test` sets a statistic to where it reads a text. -/
def HzTest.sets (text : CString) (f : Field) : Option Int :=
  if beginsWith f.word text then
    if f = .irqs then some (intrSum text) else intAt (scanLine f.count text) f.place
  else none

/-- A statistic of the `"cpu "` line, or one of the two others. -/
theorem Field.count_cases (f : Field) :
    f.count = 7 ∧ f.word = cpuWord ∧ f ≠ .ctxt ∧ f ≠ .irqs ∨ f = .ctxt ∨ f = .irqs := by
  cases f <;> simp [count, word]

theorem get_assignCpu (assigned : List Assigned) (stat : Stats) (f : Field) :
    (assignCpu assigned stat).get f =
      if f.count = 7 then (intAt assigned f.place).getD (stat.get f) else stat.get f := by
  cases f <;> rfl

theorem get_assignCtxt (assigned : List Assigned) (stat : Stats) (f : Field) :
    (assignCtxt assigned stat).get f =
      if f = .ctxt then (intAt assigned 1).getD (stat.get f) else stat.get f := by
  cases f <;> rfl

theorem get_assignIntr (text : CString) (stat : Stats) (f : Field) :
    (assignIntr text stat).get f = if f = .irqs then intrSum text else stat.get f := by
  cases f <;> rfl

theorem LatencyTest.get_cpuLine (text : CString) (stat : Stats) (f : Field) :
    (cpuLine text stat).get f =
      if f.count = 7 then
        if (scanLine 7 text).length = 8 then (intAt (scanLine 7 text) f.place).getD (stat.get f)
        else 0
      else stat.get f := by
  rw [cpuLine]
  by_cases hLength : (scanLine 7 text).length = 8
  · rw [if_neg (not_not.mpr hLength), if_pos hLength, get_assignCpu]
  · rw [if_pos hLength, if_neg hLength]
    cases f <;> rfl

theorem LatencyTest.get_ctxtLine (text : CString) (stat : Stats) (f : Field) :
    (ctxtLine text stat).get f =
      if f = .ctxt then
        if (scanLine 1 text).length = 2 then (intAt (scanLine 1 text) 1).getD (stat.get f)
        else 0
      else stat.get f := by
  rw [ctxtLine]
  by_cases hLength : (scanLine 1 text).length = 2
  · rw [if_neg (not_not.mpr hLength), if_pos hLength, get_assignCtxt]
  · rw [if_pos hLength, if_neg hLength]
    cases f <;> rfl

/-- The step lemma of `latency-test`. -/
theorem LatencyTest.get_assign (text : CString) (stat : Stats) (f : Field) :
    (assign text stat).get f = (sets text f).getD (stat.get f) := by
  simp only [assign, apply_ite (Stats.get · f), get_assignIntr, get_ctxtLine, get_cpuLine]
  rcases f.count_cases with ⟨hCount, hWord, hCtxt, hIrqs⟩ | rfl | rfl
  · simp only [sets, hCount, hWord, hCtxt, hIrqs, if_true, if_false, ite_self]
    split_ifs <;> rfl
  · have hCount : ¬ (1 : ℕ) = 7 := by decide
    by_cases hLength : (scanLine 1 text).length = 2
    · simp only [sets, Field.count, Field.word, Field.place, hCount, hLength, reduceCtorEq,
        if_true, if_false, ite_self]
      split_ifs <;> rfl
    · simp only [sets, Field.count, Field.word, hCount, hLength, reduceCtorEq, if_true, if_false,
        ite_self, Nat.reduceAdd]
      split_ifs <;> rfl
  · simp only [sets, Field.count, Field.word, reduceCtorEq, if_true, if_false]
    split_ifs <;> rfl

/-- The step lemma of `hz-test`. -/
theorem HzTest.get_assign (text : CString) (stat : Stats) (f : Field) :
    (assign text stat).get f = (sets text f).getD (stat.get f) := by
  simp only [assign, apply_ite (Stats.get · f), get_assignIntr, get_assignCtxt, get_assignCpu]
  rcases f.count_cases with ⟨hCount, hWord, hCtxt, hIrqs⟩ | rfl | rfl
  · simp only [sets, hCount, hWord, hCtxt, hIrqs, if_true, if_false, ite_self]
    split_ifs <;> rfl
  · have hCount : ¬ (1 : ℕ) = 7 := by decide
    simp only [sets, Field.count, Field.word, Field.place, hCount, reduceCtorEq, if_true, if_false,
      ite_self]
    split_ifs <;> rfl
  · simp only [sets, Field.count, Field.word, reduceCtorEq, if_true, if_false]
    split_ifs <;> rfl

/-- What the last of the texts that set a statistic sets it to. -/
def lastSet (sets : CString → Field → Option Int) (texts : List CString) (f : Field) :
    Option Int :=
  texts.reverse.findSome? fun text => sets text f

theorem lastSet_cons (sets : CString → Field → Option Int) (text : CString) (texts : List CString)
    (f : Field) : lastSet sets (text :: texts) f = (lastSet sets texts f).or (sets text f) := by
  rw [lastSet, List.reverse_cons, List.findSome?_append, List.findSome?_singleton]
  rfl

theorem get_foldl {assign : CString → Stats → Stats} {sets : CString → Field → Option Int}
    (hAssign : ∀ text stat f, (assign text stat).get f = (sets text f).getD (stat.get f))
    (texts : List CString) (init : Stats) (f : Field) :
    (texts.foldl (fun stat text => assign text stat) init).get f =
      (lastSet sets texts f).getD (init.get f) := by
  induction texts generalizing init with
  | nil => rfl
  | cons text texts ih =>
    rw [List.foldl_cons, ih, hAssign, lastSet_cons]
    cases lastSet sets texts f with
    | some v => rfl
    | none => rfl

theorem LatencyTest.get_readTexts (texts : List CString) (f : Field) :
    (readTexts texts).get f = (lastSet sets texts f).getD 0 := by
  rw [readTexts, get_foldl get_assign]
  cases f <;> rfl

/-- A run of `hz-test` that stays within its arrays. -/
theorem HzTest.readTexts_eq (init : Stats) (texts : List CString) :
    readTexts init texts = if ∃ text ∈ texts, overruns text = true then none
      else some (texts.foldl (fun stat text => assign text stat) init) := by
  induction texts generalizing init with
  | nil => simp [readTexts]
  | cons text texts ih =>
    rw [readTexts, List.foldlM_cons]
    cases hOverrun : overruns text with
    | true => simp [step, hOverrun]
    | false =>
      have hStep : step init text = some (assign text init) := by simp [step, hOverrun]
      have hRest := ih (assign text init)
      rw [readTexts] at hRest
      rw [hStep, Option.bind_eq_bind, Option.bind_some, hRest]
      simp only [List.mem_cons, exists_eq_or_imp, hOverrun, Bool.false_eq_true, false_or,
        List.foldl_cons]

theorem lastSet_append (sets : CString → Field → Option Int) (texts more : List CString)
    (f : Field) :
    lastSet sets (texts ++ more) f = (lastSet sets more f).or (lastSet sets texts f) := by
  rw [lastSet, List.reverse_append, List.findSome?_append]
  rfl

theorem lastSet_singleton (sets : CString → Field → Option Int) (text : CString) (f : Field) :
    lastSet sets [text] f = sets text f := List.findSome?_singleton

theorem HzTest.get_of_readTexts {init stat : Stats} {texts : List CString}
    (hRead : readTexts init texts = some stat) (f : Field) :
    stat.get f = (lastSet sets texts f).getD (init.get f) := by
  rw [readTexts_eq] at hRead
  split_ifs at hRead
  obtain rfl := Option.some.inj hRead
  exact get_foldl get_assign texts init f

/-! ## Lines that fit -/

theorem beginsWith_iff {word text : CString} :
    beginsWith word text = true ↔ text.bytes.take word.strlen = word.bytes := by
  rw [beginsWith, decide_eq_true_eq, strncmp_eq_zero_iff, CString.strlen, List.take_length]

theorem buffers_append {file : List UInt8} (h : Complete 10 file) (rest : List UInt8) :
    buffers (file ++ rest) = buffers file ++ buffers rest := by
  rw [buffers, fgetsAll_append (by decide) h, List.map_append]
  rfl

theorem buffers_line {line : List UInt8} (h : IsLine 10 line) (hFits : line.length < 4096) :
    buffers line = [CString.ofBuffer line] := by
  rw [buffers, fgetsAll_of_fits h hFits, List.map_singleton]

end DebugCode.SysStats
