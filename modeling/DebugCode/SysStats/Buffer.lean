import DebugCode.Lib.Words
import DebugCode.SysStats.Interrupts

/-!
# Lines that do not fit the buffer

A line of 4096 bytes or more comes in pieces. The first piece is read as the line, and the
others as if each of them were a line.

* `sameLast_iff_numbersKept`: where no other piece is taken for a line, and the columns of the
  `cpu` and `ctxt` lines are in the first piece, only an `intr` line can lose something.
* `readSysStats_eq_of_kept`: so the buffer makes no difference where what it loses adds up to
  a multiple of 2³².
* `exists_numbersKept_iff`: for a line as the kernel writes it these are the numbers behind the
  cut, and what the cut takes off the number that it goes through.
-/

namespace DebugCode.SysStats

open Lib

/-- The whole lines of a file. -/
def wholeLines (file : List UInt8) : List CString := (lines 10 file).map CString.ofBuffer

/-- The same rules on whole lines. -/
def LatencyTest.readLines (file : List UInt8) : Stats := readTexts (wholeLines file)

def HzTest.readLines (init : Stats) (file : List UInt8) : Option Stats :=
  readTexts init (wholeLines file)

/-- Two ways to cut a file into texts lead to the same number for every statistic: that of the
last text that sets it, or what it was before. -/
def SameLast (sets : CString → Field → Option Int) (before : Stats) (texts texts' : List CString) :
    Prop :=
  ∀ f, (lastSet sets texts f).getD (before.get f) = (lastSet sets texts' f).getD (before.get f)

theorem LatencyTest.readTexts_eq_iff (texts texts' : List CString) :
    readTexts texts = readTexts texts' ↔ SameLast sets initial texts texts' := by
  constructor
  · intro hSame f
    have hGet := congrArg (Stats.get · f) hSame
    simp only [readTexts, get_foldl get_assign] at hGet
    exact hGet
  · intro hLast
    apply Stats.ext_get
    intro f
    rw [readTexts, readTexts, get_foldl get_assign, get_foldl get_assign]
    exact hLast f

theorem HzTest.readTexts_eq_iff (init : Stats) (texts texts' : List CString) :
    readTexts init texts = readTexts init texts' ↔
      (∃ text ∈ texts, overruns text = true) ∧ (∃ text ∈ texts', overruns text = true) ∨
        (∀ text ∈ texts, overruns text = false) ∧ (∀ text ∈ texts', overruns text = false) ∧
          SameLast sets init texts texts' := by
  have hNone : ∀ ts : List CString, (¬ ∃ text ∈ ts, overruns text = true) ↔
      ∀ text ∈ ts, overruns text = false := by
    intro ts
    simp
  rw [readTexts_eq, readTexts_eq, ← hNone, ← hNone]
  by_cases hOver : ∃ text ∈ texts, overruns text = true
  · by_cases hOver' : ∃ text ∈ texts', overruns text = true
    · simp only [hOver, hOver', if_true, and_self, true_or]
    · simp only [hOver, hOver', if_true, if_false, reduceCtorEq, and_false, not_true_eq_false,
        false_and, or_self]
  · by_cases hOver' : ∃ text ∈ texts', overruns text = true
    · simp only [hOver, hOver', if_true, if_false, reduceCtorEq, not_true_eq_false, false_and,
        and_false, or_self]
    · simp only [hOver, hOver', if_false, Option.some.injEq, false_and, not_false_eq_true,
        true_and, false_or]
      constructor
      · intro hSame f
        rw [← get_foldl get_assign, ← get_foldl get_assign, hSame]
      · intro hLast
        apply Stats.ext_get
        intro f
        rw [get_foldl get_assign, get_foldl get_assign]
        exact hLast f

/-! ## The last line that counts -/

/-- The number that a statistic has after the pieces of a line. -/
def inPieces (sets : CString → Field → Option Int) (f : Field) (line : List UInt8) :
    Option Int :=
  lastSet sets (buffers line) f

/-- The number that it has after the whole line. -/
def asWhole (sets : CString → Field → Option Int) (f : Field) (line : List UInt8) : Option Int :=
  sets (CString.ofBuffer line) f

/-- The buffers of a file are those of its lines. -/
theorem buffers_eq_flatMap (file : List UInt8) :
    buffers file = (lines 10 file).flatMap buffers := by
  rw [buffers, fgetsAll_eq_flatMap (by decide), List.map_flatMap]
  rfl

/-- Those of a line are the first piece and what is made of the rest. -/
theorem buffers_split {line : List UInt8} (h : IsLine 10 line) :
    buffers line = CString.ofBuffer (line.take 4095) :: buffers (line.drop 4095) := by
  rw [buffers, fgetsAll_line (by decide) h]
  rfl

theorem lastSet_flatMap (sets : CString → Field → Option Int) (f : Field)
    (ls : List (List UInt8)) :
    lastSet sets (ls.flatMap buffers) f = ls.reverse.findSome? (inPieces sets f) := by
  induction ls with
  | nil => rfl
  | cons line ls ih =>
    rw [List.flatMap_cons, lastSet_append, ih, List.reverse_cons, List.findSome?_append,
      List.findSome?_singleton]
    rfl

theorem lastSet_buffers (sets : CString → Field → Option Int) (f : Field) (file : List UInt8) :
    lastSet sets (buffers file) f = (lines 10 file).reverse.findSome? (inPieces sets f) := by
  rw [buffers_eq_flatMap, lastSet_flatMap]

theorem lastSet_wholeLines (sets : CString → Field → Option Int) (f : Field)
    (file : List UInt8) :
    lastSet sets (wholeLines file) f = (lines 10 file).reverse.findSome? (asWhole sets f) := by
  rw [lastSet, wholeLines, ← List.map_reverse, List.findSome?_map]
  rfl

theorem findSome?_congr {α β : Type*} {f g : α → Option β} {l : List α}
    (h : ∀ x ∈ l, f x = g x) : l.findSome? f = l.findSome? g := by
  induction l with
  | nil => rfl
  | cons x l ih =>
    rw [List.forall_mem_cons] at h
    rw [List.findSome?_cons, List.findSome?_cons, h.1, ih h.2]

/-- Line by line, a statistic is the same. -/
theorem lastSet_eq_of_lines {sets : CString → Field → Option Int} {f : Field} {file : List UInt8}
    (hSame : ∀ line ∈ lines 10 file, inPieces sets f line = asWhole sets f line) :
    lastSet sets (buffers file) f = lastSet sets (wholeLines file) f := by
  rw [lastSet_buffers, lastSet_wholeLines]
  exact findSome?_congr fun line hLine => hSame line (List.mem_reverse.mp hLine)

/-! ## Lines that fit -/

/-- Only the beginning of a line is taken for one. -/
def Unsplit (file : List UInt8) : Prop :=
  ∀ line ∈ lines 10 file, ∀ text ∈ buffers (line.drop 4095), ∀ f : Field,
    beginsWith f.word text = false

/-- The lines that are read fit the buffer. -/
def Fits (file : List UInt8) : Prop :=
  ∀ line ∈ lines 10 file, ∀ f : Field, beginsWith f.word (CString.ofBuffer line) = true →
    line.length < 4096

theorem LatencyTest.sets_of_other {text : CString} {f : Field}
    (h : beginsWith f.word text = false) : sets text f = none := by
  rw [sets, h]
  rfl

theorem HzTest.sets_of_other {text : CString} {f : Field} (h : beginsWith f.word text = false) :
    sets text f = none := by
  rw [sets, h]
  rfl

theorem ofBuffer_take (text : List UInt8) (n : ℕ) :
    (CString.ofBuffer (text.take n)).bytes = (CString.ofBuffer text).bytes.take n :=
  (List.take_takeWhile).symm

theorem strlen_word_le (f : Field) : f.word.strlen ≤ 4095 := by
  have hCpu : cpuWord.strlen ≤ 4095 := by simp [CString.strlen, cpuWord_bytes]
  have hCtx : ctxWord.strlen ≤ 4095 := by simp [CString.strlen, ctxWord_bytes]
  have hIntr : intrWord.strlen ≤ 4095 := by simp [CString.strlen, intrWord_bytes, ascii_intr]
  rcases f.count_cases with ⟨-, hWord, -⟩ | rfl | rfl
  · rw [hWord]
    exact hCpu
  · exact hCtx
  · exact hIntr

/-- The first piece of a line begins as the line does. -/
theorem beginsWith_take (f : Field) (line : List UInt8) :
    beginsWith f.word (CString.ofBuffer (line.take 4095)) =
      beginsWith f.word (CString.ofBuffer line) := by
  rw [Bool.eq_iff_iff, beginsWith_iff, beginsWith_iff, ofBuffer_take, List.take_take,
    Nat.min_eq_left (strlen_word_le f)]

section

variable {sets : CString → Field → Option Int}
  (hOther : ∀ text f, beginsWith f.word text = false → sets text f = none)

include hOther

/-- A line that comes in pieces is read as its first piece. -/
theorem inPieces_eq {line : List UInt8} (hLine : IsLine 10 line) {f : Field}
    (hPieces : ∀ text ∈ buffers (line.drop 4095), beginsWith f.word text = false) :
    inPieces sets f line = sets (CString.ofBuffer (line.take 4095)) f := by
  have hRest : lastSet sets (buffers (line.drop 4095)) f = none := by
    rw [lastSet, List.findSome?_eq_none_iff]
    intro text hText
    exact hOther text f (hPieces text (List.mem_reverse.mp hText))
  rw [inPieces, buffers_split hLine, lastSet_cons, hRest, Option.none_or]

/-- Only a line that begins with its word has to show a statistic in its first piece. -/
theorem sets_take {line : List UInt8} {f : Field}
    (hShown : beginsWith f.word (CString.ofBuffer line) = true →
      sets (CString.ofBuffer (line.take 4095)) f = asWhole sets f line) :
    sets (CString.ofBuffer (line.take 4095)) f = asWhole sets f line := by
  cases hBegins : beginsWith f.word (CString.ofBuffer line) with
  | true => exact hShown hBegins
  | false => rw [asWhole, hOther _ f hBegins, hOther _ f ((beginsWith_take f line).trans hBegins)]

/-- Line by line, it makes no difference. -/
theorem sameLast_of_fits {file : List UInt8} (hUnsplit : Unsplit file) (hFits : Fits file)
    (before : Stats) : SameLast sets before (buffers file) (wholeLines file) := by
  intro f
  congr 1
  apply lastSet_eq_of_lines
  intro line hMem
  rw [inPieces_eq hOther (isLine_of_mem_lines hMem) fun text hText =>
    hUnsplit line hMem text hText f]
  apply sets_take hOther
  intro hBegins
  rw [List.take_of_length_le (Nat.le_of_lt_succ (hFits line hMem f hBegins)), asWhole]

end

/-- A file in which every line fits. -/
theorem unsplit_and_fits {file : List UInt8}
    (hShort : ∀ line ∈ lines 10 file, line.length < 4096) : Unsplit file ∧ Fits file := by
  refine ⟨?_, fun line hLine _ _ => hShort line hLine⟩
  intro line hLine text hText
  rw [List.drop_eq_nil_of_le (Nat.le_of_lt_succ (hShort line hLine))] at hText
  cases hText

/-! ## Lines that lose nothing -/

/-- None of the words stands at a multiple of 4095 bytes within a line. -/
def NoWordAtCut (file : List UInt8) : Prop :=
  ∀ line ∈ lines 10 file, ∀ (k : ℕ) (f : Field),
    beginsWith f.word (CString.ofBuffer (line.drop (4095 * (k + 1)))) = false

/-- A line ends in its first 4095 bytes, or these go on behind the word and the numbers that are
read. -/
def Shown (f : Field) (line : List UInt8) : Prop :=
  (CString.ofBuffer line).strlen ≤ 4095 ∨
    HoldsWords (f.count + 1) ((CString.ofBuffer line).bytes.take 4095)

/-- So do all `cpu` and `ctxt` lines. -/
def ColumnsKept (file : List UInt8) : Prop :=
  ∀ line ∈ lines 10 file, ∀ f : Field, f ≠ .irqs →
    beginsWith f.word (CString.ofBuffer line) = true → Shown f line

def lastIntrLine (file : List UInt8) : Option (List UInt8) :=
  (lines 10 file).reverse.find? fun line => beginsWith intrWord (CString.ofBuffer line)

/-- The numbers of the last `intr` line and those of its first 4095 bytes differ in their sum by
a multiple of 2³². -/
def NumbersKept (file : List UInt8) : Prop :=
  ∀ line, lastIntrLine file = some line →
    2 ^ 32 ∣ (intrNumbers (CString.ofBuffer line)).sum -
      (intrNumbers (CString.ofBuffer (line.take 4095))).sum

structure Kept (file : List UInt8) : Prop where
  no_word : NoWordAtCut file
  columns : ColumnsKept file
  numbers : NumbersKept file

theorem NoWordAtCut.unsplit {file : List UInt8} (h : NoWordAtCut file) : Unsplit file := by
  intro line hLine text hText f
  obtain ⟨piece, hPiece, rfl⟩ := List.mem_map.mp hText
  have hRest : line.drop 4095 ≠ [] := by
    intro hNil
    rw [hNil] at hPiece
    cases hPiece
  obtain ⟨k, rfl⟩ := mem_fgetsAll (by decide) ((isLine_of_mem_lines hLine).drop hRest) hPiece
  have hStart : (line.drop 4095).drop ((4096 - 1) * k) = line.drop (4095 * (k + 1)) := by
    rw [List.drop_drop, Nat.mul_succ, Nat.add_comm]
  rw [hStart, show 4096 - 1 = 4095 from rfl, beginsWith_take]
  exact h line hLine k f

/-- A line whose text ends in its first piece. -/
theorem ofBuffer_take_of_le {line : List UInt8} (h : (CString.ofBuffer line).strlen ≤ 4095) :
    CString.ofBuffer (line.take 4095) = CString.ofBuffer line := by
  apply CString.ext
  rw [ofBuffer_take, List.take_of_length_le h]

/-- The first piece of a line, and the line as what the piece goes on with. -/
theorem ofBuffer_eq_append (line : List UInt8) : (CString.ofBuffer line).bytes =
    (CString.ofBuffer (line.take 4095)).bytes ++ (CString.ofBuffer line).bytes.drop 4095 := by
  rw [ofBuffer_take, List.take_append_drop]

theorem LatencyTest.scanLine_take {n : ℕ} {line : List UInt8}
    (hWords : HoldsWords (n + 1) ((CString.ofBuffer line).bytes.take 4095)) :
    scanLine n (CString.ofBuffer (line.take 4095)) = scanLine n (CString.ofBuffer line) := by
  rw [← ofBuffer_take] at hWords
  obtain ⟨w, rest, hPiece, hWhole, hScan⟩ :=
    scanWord_append (by decide : 0 < 9) hWords ((CString.ofBuffer line).bytes.drop 4095)
  rw [scanLine, scanLine, ofBuffer_eq_append line, hPiece, hWhole]
  exact congrArg _ hScan.symm

theorem HzTest.scanLine_take {n : ℕ} {line : List UInt8}
    (hWords : HoldsWords (n + 1) ((CString.ofBuffer line).bytes.take 4095)) :
    scanLine n (CString.ofBuffer (line.take 4095)) = scanLine n (CString.ofBuffer line) := by
  rw [← ofBuffer_take] at hWords
  rw [scanLine, scanLine, ofBuffer_eq_append line]
  exact (scan_word_ints_append hWords _).symm

theorem LatencyTest.sets_of_shown {f : Field} {line : List UInt8} (hIrqs : f ≠ .irqs)
    (hShown : Shown f line) :
    sets (CString.ofBuffer (line.take 4095)) f = asWhole sets f line := by
  rw [asWhole]
  rcases hShown with hShort | hWords
  · rw [ofBuffer_take_of_le hShort]
  · rw [sets, sets, beginsWith_take, scanLine_take hWords, if_neg hIrqs, if_neg hIrqs]

theorem HzTest.sets_of_shown {f : Field} {line : List UInt8} (hIrqs : f ≠ .irqs)
    (hShown : Shown f line) :
    sets (CString.ofBuffer (line.take 4095)) f = asWhole sets f line := by
  rw [asWhole]
  rcases hShown with hShort | hWords
  · rw [ofBuffer_take_of_le hShort]
  · rw [sets, sets, beginsWith_take, scanLine_take hWords, if_neg hIrqs, if_neg hIrqs]

/-- Only an `intr` line can lose something, and the last one counts. -/
theorem sameLast_iff_numbersKept {sets : CString → Field → Option Int} {file : List UInt8}
    (hOther : ∀ text f, beginsWith f.word text = false → sets text f = none)
    (hIntr : ∀ text, sets text .irqs =
      if beginsWith intrWord text then some (intrSum text) else none)
    (hShown : ∀ {f : Field} {line}, f ≠ .irqs → Shown f line →
      sets (CString.ofBuffer (line.take 4095)) f = asWhole sets f line)
    (hCut : NoWordAtCut file) (hColumns : ColumnsKept file) (before : Stats) :
    SameLast sets before (buffers file) (wholeLines file) ↔ NumbersKept file := by
  have hFirst : ∀ line ∈ lines 10 file, ∀ f,
      inPieces sets f line = sets (CString.ofBuffer (line.take 4095)) f := by
    intro line hLine f
    exact inPieces_eq hOther (isLine_of_mem_lines hLine)
      fun text hText => hCut.unsplit line hLine text hText f
  have hOthers : ∀ f : Field, f ≠ .irqs →
      lastSet sets (buffers file) f = lastSet sets (wholeLines file) f := by
    intro f hf
    apply lastSet_eq_of_lines
    intro line hLine
    rw [hFirst line hLine f]
    exact sets_take hOther fun hBegins => hShown hf (hColumns line hLine f hf hBegins)
  have hPieces : lastSet sets (buffers file) .irqs =
      (lastIntrLine file).map fun line =>
        toInt (intrNumbers (CString.ofBuffer (line.take 4095))).sum := by
    rw [lastSet_buffers, lastIntrLine, ← findSome?_ite]
    apply findSome?_congr
    intro line hLine
    have hBegins : beginsWith intrWord (CString.ofBuffer (line.take 4095)) =
        beginsWith intrWord (CString.ofBuffer line) := beginsWith_take .irqs line
    rw [hFirst line (List.mem_reverse.mp hLine), hIntr, intrSum_eq, hBegins]
  have hWhole : lastSet sets (wholeLines file) .irqs =
      (lastIntrLine file).map fun line => toInt (intrNumbers (CString.ofBuffer line)).sum := by
    rw [lastSet_wholeLines, lastIntrLine, ← findSome?_ite]
    apply findSome?_congr
    intro line _
    rw [asWhole, hIntr, intrSum_eq]
  constructor
  · intro hSame line hLast
    have hIrqs := hSame .irqs
    rw [hPieces, hWhole, hLast] at hIrqs
    exact toInt_eq_iff.mp hIrqs.symm
  · intro hKept f
    by_cases hf : f = .irqs
    · rw [hf, hPieces, hWhole]
      cases hLast : lastIntrLine file with
      | none => rfl
      | some line => exact toInt_eq_iff.mpr (hKept line hLast) |>.symm
    · rw [hOthers f hf]

/-- The first piece of a line writes past the array exactly when the line does. -/
theorem HzTest.overruns_take {line : List UInt8}
    (hShown : ∀ f : Field, f ≠ .irqs → beginsWith f.word (CString.ofBuffer line) = true →
      Shown f line) :
    overruns (CString.ofBuffer (line.take 4095)) = overruns (CString.ofBuffer line) := by
  have hCpu : beginsWith cpuWord (CString.ofBuffer (line.take 4095)) =
      beginsWith cpuWord (CString.ofBuffer line) := beginsWith_take .user line
  have hCtx : beginsWith ctxWord (CString.ofBuffer (line.take 4095)) =
      beginsWith ctxWord (CString.ofBuffer line) := beginsWith_take .ctxt line
  have hScan : ∀ f : Field, f ≠ .irqs → beginsWith f.word (CString.ofBuffer line) = true →
      scanLine 1 (CString.ofBuffer (line.take 4095)) = scanLine 1 (CString.ofBuffer line) := by
    intro f hf hBegins
    rcases hShown f hf hBegins with hShort | hWords
    · rw [ofBuffer_take_of_le hShort]
    · refine scanLine_take (hWords.of_le ?_)
      cases f <;> first | decide | exact absurd rfl hf
  rw [overruns, overruns, hCpu, hCtx]
  cases hBegins : beginsWith cpuWord (CString.ofBuffer line) with
  | true => rw [hScan .user (by decide) hBegins]
  | false =>
    cases hBegins' : beginsWith ctxWord (CString.ofBuffer line) with
    | true => rw [hScan .ctxt (by decide) hBegins']
    | false => rfl

theorem HzTest.overruns_of_other {text : CString}
    (h : ∀ f : Field, beginsWith f.word text = false) : overruns text = false := by
  have hCpu : beginsWith cpuWord text = false := h .user
  have hCtx : beginsWith ctxWord text = false := h .ctxt
  rw [overruns, hCpu, hCtx]
  rfl

/-- Of the pieces of a line, only the first one can write past the array. -/
theorem HzTest.exists_overruns_line_iff {line : List UInt8} (hLine : IsLine 10 line)
    (hPieces : ∀ text ∈ buffers (line.drop 4095), ∀ f : Field, beginsWith f.word text = false)
    (hShown : ∀ f : Field, f ≠ .irqs → beginsWith f.word (CString.ofBuffer line) = true →
      Shown f line) :
    (∃ text ∈ buffers line, overruns text = true) ↔ overruns (CString.ofBuffer line) = true := by
  have hRest : ¬ ∃ text ∈ buffers (line.drop 4095), overruns text = true := by
    rintro ⟨text, hText, hOverrun⟩
    rw [overruns_of_other (hPieces text hText)] at hOverrun
    cases hOverrun
  rw [buffers_split hLine, List.exists_mem_cons_iff, overruns_take hShown]
  exact or_iff_left hRest

theorem HzTest.exists_overruns_iff {file : List UInt8} (hCut : NoWordAtCut file)
    (hColumns : ColumnsKept file) : (∃ text ∈ buffers file, overruns text = true) ↔
      ∃ text ∈ wholeLines file, overruns text = true := by
  have hLine : ∀ line ∈ lines 10 file,
      ((∃ text ∈ buffers line, overruns text = true) ↔
        overruns (CString.ofBuffer line) = true) :=
    fun line hMem => exists_overruns_line_iff (isLine_of_mem_lines hMem)
      (hCut.unsplit line hMem) (hColumns line hMem)
  constructor
  · rintro ⟨text, hText, hOverrun⟩
    rw [buffers_eq_flatMap] at hText
    obtain ⟨line, hMem, hText⟩ := List.mem_flatMap.mp hText
    exact ⟨_, List.mem_map_of_mem hMem, (hLine line hMem).mp ⟨text, hText, hOverrun⟩⟩
  · rintro ⟨text, hText, hOverrun⟩
    obtain ⟨line, hMem, rfl⟩ := List.mem_map.mp hText
    obtain ⟨piece, hPiece, hOverrun⟩ := (hLine line hMem).mpr hOverrun
    rw [buffers_eq_flatMap]
    exact ⟨piece, List.mem_flatMap.mpr ⟨line, hMem, hPiece⟩, hOverrun⟩

theorem LatencyTest.eq_iff_numbersKept {file : List UInt8} (hCut : NoWordAtCut file)
    (hColumns : ColumnsKept file) : readSysStats file = readLines file ↔ NumbersKept file :=
  (readTexts_eq_iff _ _).trans (sameLast_iff_numbersKept (fun _ _ => sets_of_other) sets_irqs
    sets_of_shown hCut hColumns initial)

theorem HzTest.eq_iff_numbersKept {file : List UInt8} (hCut : NoWordAtCut file)
    (hColumns : ColumnsKept file) (init : Stats) :
    readSysStats init file = readLines init file ↔
      (∃ text ∈ wholeLines file, overruns text = true) ∨ NumbersKept file := by
  have hIntr : ∀ text, sets text .irqs =
      if beginsWith intrWord text then some (intrSum text) else none :=
    fun text => (sets_irqs text).trans (LatencyTest.sets_irqs text)
  have hSame := exists_overruns_iff hCut hColumns
  have hNone : ∀ texts : List CString, (∀ text ∈ texts, overruns text = false) ↔
      ¬ ∃ text ∈ texts, overruns text = true := by
    intro texts
    simp
  have hRead := readTexts_eq_iff init (buffers file) (wholeLines file)
  rw [hNone, hNone, hSame, and_self, sameLast_iff_numbersKept (fun _ _ => sets_of_other) hIntr
    sets_of_shown hCut hColumns init] at hRead
  refine hRead.trans ?_
  by_cases hOver : ∃ text ∈ wholeLines file, overruns text = true
  · exact iff_of_true (Or.inl hOver) (Or.inl hOver)
  · simp only [hOver, false_or, not_false_eq_true, true_and]

/-- The buffer makes no difference where no piece but the first is taken for a line, the columns
are in the first piece, and what the last `intr` line loses adds up to a multiple of 2³². Where
the first two hold, the third one is necessary, unless `hz-test` writes past its array. -/
theorem readSysStats_eq_of_kept (file : List UInt8) :
    (Kept file → LatencyTest.readSysStats file = LatencyTest.readLines file ∧
      ∀ init, HzTest.readSysStats init file = HzTest.readLines init file) ∧
    (NoWordAtCut file → ColumnsKept file →
      (LatencyTest.readSysStats file = LatencyTest.readLines file ↔ NumbersKept file) ∧
        ∀ init, HzTest.readSysStats init file = HzTest.readLines init file ↔
          (∃ text ∈ wholeLines file, HzTest.overruns text = true) ∨ NumbersKept file) := by
  constructor
  · intro hKept
    refine ⟨?_, fun init => ?_⟩
    · exact (LatencyTest.eq_iff_numbersKept hKept.no_word hKept.columns).mpr hKept.numbers
    · exact (HzTest.eq_iff_numbersKept hKept.no_word hKept.columns init).mpr
        (Or.inr hKept.numbers)
  · intro hCut hColumns
    exact ⟨LatencyTest.eq_iff_numbersKept hCut hColumns, HzTest.eq_iff_numbersKept hCut hColumns⟩

/-! ## An `intr` line that does not fit -/

theorem numbers_digits {ds : List UInt8} (hDigits : ∀ c ∈ ds, isdigit c = true) :
    numbers (32 :: ds) = [atoi ds] := by
  have hStart : (32 :: ds).dropWhile (fun b => decide (b = 32)) = ds := by
    rw [List.dropWhile_cons_of_pos (by rfl)]
    cases ds with
    | nil => rfl
    | cons c cs =>
      have hBlank : c ≠ 32 := by
        rintro rfl
        cases hDigits 32 List.mem_cons_self
      exact List.dropWhile_cons_of_neg (by simpa using hBlank)
  have hAll : ds.dropWhile isdigit = [] := by
    have hSpan : (ds ++ []).dropWhile isdigit = [] := (span_digits rfl hDigits).2
    rwa [List.append_nil] at hSpan
  rw [numbers, if_pos (List.head?_cons ..), hStart, hAll, numbers_of_not_blank (by simp)]

/-- Cut behind some digits of a number, which may be none, the line counts the numbers in
front of it and what is left of that number. -/
theorem intrSum_cut {kept : List ℕ} {ds : List UInt8} (hDigits : ∀ c ∈ ds, isdigit c = true) :
    intrSum (CString.ofBuffer (ascii "intr" ++ row kept ++ 32 :: ds)) =
      toInt (counted kept + atoi ds) := by
  have hNul : 0 ∉ ascii "intr" ++ row kept ++ 32 :: ds := by
    intro h
    rcases List.mem_append.mp h with hText | hRest
    · exact (intrLine_bytes hText).1 rfl
    · rcases List.mem_cons.mp hRest with hBlank | hDigit
      · cases hBlank
      · cases hDigits 0 hDigit
  have hBytes : (CString.ofBuffer (ascii "intr" ++ row kept ++ 32 :: ds)).bytes =
      ascii "intr" ++ row kept ++ 32 :: ds :=
    congrArg CString.bytes (CString.ofBuffer_bytes ⟨_, hNul⟩)
  rw [intrSum_row hBytes rfl, numbers_digits hDigits, List.sum_singleton]

/-- A row that is cut behind its first byte ends within a number, or at one end of it. -/
theorem row_take (ns : List ℕ) {k : ℕ} (hPos : 0 < k) (hLe : k ≤ (row ns).length) :
    ∃ kept n ms ds, ns = kept ++ n :: ms ∧ ds <+: decimal n ∧
      (row ns).take k = row kept ++ 32 :: ds := by
  induction ns generalizing k with
  | nil => exact absurd (Nat.lt_of_lt_of_le hPos hLe) (Nat.lt_irrefl 0)
  | cons n ns ih =>
    obtain ⟨k, rfl⟩ := Nat.exists_eq_add_one.mpr hPos
    rw [row_cons, List.length_cons, List.length_append] at hLe
    rw [row_cons, List.take_succ_cons]
    rcases Nat.lt_or_ge (decimal n).length k with hBehind | hHere
    · obtain ⟨kept, m, ms, ds, rfl, hPrefix, hTake⟩ :=
        ih (k := k - (decimal n).length) (by omega) (by omega)
      refine ⟨n :: kept, m, ms, ds, rfl, hPrefix, ?_⟩
      rw [List.take_append, List.take_of_length_le (Nat.le_of_lt hBehind), hTake, row_cons,
        List.cons_append, List.append_assoc]
    · refine ⟨[], n, ns, (decimal n).take k, rfl, List.take_prefix k _, ?_⟩
      rw [List.take_append_of_le_length hHere]
      rfl

/-- The first piece of an `intr` line that does not fit. -/
theorem intrLine_take {ns : List ℕ} (hLong : 4095 < (intrLine ns).length) :
    ∃ kept n ms ds, ns = kept ++ n :: ms ∧ ds <+: decimal n ∧
      (intrLine ns).take 4095 = ascii "intr" ++ row kept ++ 32 :: ds := by
  have hWord : (ascii "intr").length = 4 := rfl
  rw [intrLine, List.length_append, List.length_append, hWord, List.length_singleton] at hLong
  have hRow : 4091 ≤ (row ns).length := by omega
  obtain ⟨kept, n, ms, ds, hSplit, hPrefix, hTake⟩ := row_take ns (by decide) hRow
  refine ⟨kept, n, ms, ds, hSplit, hPrefix, ?_⟩
  rw [intrLine, List.append_assoc, List.take_append, hWord,
    List.take_of_length_le (by omega), List.take_append_of_le_length hRow, hTake,
    List.append_assoc]

/-- Numbers and blanks are not taken for a line. -/
theorem not_beginsWith_of_bytes {text : List UInt8}
    (hBytes : ∀ c ∈ text, c = 32 ∨ isdigit c = true ∨ c = 10) (f : Field) :
    beginsWith f.word (CString.ofBuffer text) = false := by
  have hLetter : ∃ c ∈ f.word.bytes, ¬ (c = 32 ∨ isdigit c = true ∨ c = 10) := by
    have hCpu : 99 ∈ cpuWord.bytes := List.mem_cons_self
    have hCtx : 99 ∈ ctxWord.bytes := List.mem_cons_self
    have hIntr : 105 ∈ intrWord.bytes := List.mem_cons_self
    rcases f.count_cases with ⟨-, hWord, -⟩ | rfl | rfl
    · rw [hWord]
      exact ⟨99, hCpu, by decide⟩
    · exact ⟨99, hCtx, by decide⟩
    · exact ⟨105, hIntr, by decide⟩
  obtain ⟨c, hMem, hNot⟩ := hLetter
  rw [Bool.eq_false_iff, ne_eq, beginsWith_iff]
  intro hBegins
  rw [← hBegins] at hMem
  exact hNot (hBytes c ((List.takeWhile_sublist _).subset (List.mem_of_mem_take hMem)))

/-- Only the first piece of an `intr` line counts. -/
theorem noWordAtCut_intrLine (ns : List ℕ) : NoWordAtCut (intrLine ns) := by
  intro line hLine k f
  rw [lines_of_isLine (isLine_intrLine ns), List.mem_singleton] at hLine
  have hWord : (ascii "intr").length = 4 := rfl
  rw [hLine, intrLine, List.append_assoc, List.drop_append, hWord,
    List.drop_eq_nil_of_le (by rw [hWord]; omega), List.nil_append]
  apply not_beginsWith_of_bytes
  intro c hc
  rcases List.mem_append.mp (List.mem_of_mem_drop hc) with hRow | hEnd
  · rcases row_bytes hRow with hBlank | hDigit
    · exact Or.inl hBlank
    · exact Or.inr (Or.inl hDigit)
  · exact Or.inr (Or.inr (List.mem_singleton.mp hEnd))

/-- It is no `cpu` line and no `ctxt` line. -/
theorem columnsKept_intrLine (ns : List ℕ) : ColumnsKept (intrLine ns) := by
  intro line hLine f hIrqs hBegins
  rw [lines_of_isLine (isLine_intrLine ns), List.mem_singleton] at hLine
  rw [hLine, beginsWith_iff, ofBuffer_intrLine] at hBegins
  have hFirst := congrArg List.head? hBegins
  rcases f.count_cases with ⟨-, hWord, -⟩ | rfl | rfl
  · rw [hWord, cpuWord_bytes] at hFirst
    cases hFirst
  · cases hFirst
  · exact absurd rfl hIrqs

theorem counted_append (ns ms : List ℕ) : counted (ns ++ ms) = counted ns + counted ms := by
  rw [counted, List.map_append, List.sum_append]
  rfl

theorem lastIntrLine_intrLine (ns : List ℕ) :
    lastIntrLine (intrLine ns) = some (intrLine ns) := by
  rw [lastIntrLine, lines_of_isLine (isLine_intrLine ns), List.reverse_singleton,
    List.find?_singleton, if_pos (beginsWith_intrLine ns)]

/-- Cut within its number `n`, or at one end of it, an `intr` line loses those behind it and what
the cut takes off this one. -/
theorem numbersKept_intrLine_iff {kept ms : List ℕ} {n : ℕ} {ds : List UInt8}
    (hDigits : ∀ c ∈ ds, isdigit c = true)
    (hTake : (intrLine (kept ++ n :: ms)).take 4095 = ascii "intr" ++ row kept ++ 32 :: ds) :
    NumbersKept (intrLine (kept ++ n :: ms)) ↔ 2 ^ 32 ∣ counted (n :: ms) - atoi ds := by
  have hWhole : toInt (intrNumbers (CString.ofBuffer (intrLine (kept ++ n :: ms)))).sum =
      toInt (counted (kept ++ n :: ms)) := by
    rw [← intrSum_intrLine, intrSum_eq]
  have hPiece :
      toInt (intrNumbers (CString.ofBuffer ((intrLine (kept ++ n :: ms)).take 4095))).sum =
        toInt (counted kept + atoi ds) := by
    rw [← intrSum_cut hDigits, intrSum_eq, hTake]
  have hLast : NumbersKept (intrLine (kept ++ n :: ms)) ↔
      toInt (counted (kept ++ n :: ms)) = toInt (counted kept + atoi ds) := by
    rw [← hWhole, ← hPiece, toInt_eq_iff, NumbersKept, lastIntrLine_intrLine]
    exact ⟨fun h => h _ rfl, fun h line hLine => Option.some.inj hLine ▸ h⟩
  rw [hLast, toInt_eq_iff, counted_append]
  omega

/-- Every `intr` line that does not fit is cut in this way. -/
theorem exists_numbersKept_iff {ns : List ℕ} (hLong : 4095 < (intrLine ns).length) :
    ∃ kept n ms ds, ns = kept ++ n :: ms ∧ ds <+: decimal n ∧
      (NumbersKept (intrLine ns) ↔ 2 ^ 32 ∣ counted (n :: ms) - atoi ds) := by
  obtain ⟨kept, n, ms, ds, rfl, hPrefix, hTake⟩ := intrLine_take hLong
  have hDigits : ∀ c ∈ ds, isdigit c = true :=
    fun c hc => decimal_isdigit n c (hPrefix.subset hc)
  exact ⟨kept, n, ms, ds, rfl, hPrefix, numbersKept_intrLine_iff hDigits hTake⟩

theorem row_concat (ns : List ℕ) (n : ℕ) : row (ns ++ [n]) = row ns ++ 32 :: decimal n := by
  rw [row, List.flatMap_append, List.flatMap_singleton]
  rfl

/-- An `intr` line with 2045 numbers that are zero, and a last one. -/
def longLine (n : ℕ) : List UInt8 := intrLine (List.replicate 2045 0 ++ [n])

theorem firstPiece_length :
    (ascii "intr" ++ row (List.replicate 2045 0) ++ [32]).length = 4095 := by
  have hWord : (ascii "intr").length = 4 := rfl
  have hZero : decimal 0 = [48] := rfl
  have hRow : ∀ k, (row (List.replicate k 0)).length = 2 * k := by
    intro k
    induction k with
    | zero => rfl
    | succ k ih =>
      rw [List.replicate_succ, row_cons, List.length_cons, List.length_append, ih, hZero,
        List.length_singleton]
      omega
  rw [List.length_append, List.length_append, hWord, hRow]
  rfl

/-- The last number of the line is in the second piece, and is lost. -/
theorem longLine_take (n : ℕ) :
    (longLine n).take 4095 = ascii "intr" ++ row (List.replicate 2045 0) ++ 32 :: [] := by
  have hSplit : longLine n =
      ascii "intr" ++ row (List.replicate 2045 0) ++ [32] ++ (decimal n ++ [10]) := by
    rw [longLine, intrLine, row_concat]
    simp only [List.append_assoc, List.cons_append, List.nil_append]
  rw [hSplit, ← firstPiece_length, List.take_left]

theorem numbersKept_longLine_iff (n : ℕ) :
    NumbersKept (longLine n) ↔ 2 ^ 32 ∣ clampLong false n := by
  have hLost := numbersKept_intrLine_iff (by simp) (longLine_take n)
  have hNone : atoi [] = 0 := by decide
  rw [longLine, hLost, counted_cons, hNone, counted, List.map_nil, List.sum_nil, Int.add_zero,
    Int.sub_zero]

/-- What is lost of this line does not show. -/
theorem readSysStats_keeps :
    LatencyTest.readSysStats (longLine 4294967296) =
        LatencyTest.readLines (longLine 4294967296) ∧
      ∀ init, HzTest.readSysStats init (longLine 4294967296) =
        HzTest.readLines init (longLine 4294967296) := by
  have hNumbers : NumbersKept (longLine 4294967296) := by
    rw [numbersKept_longLine_iff]
    decide
  exact (readSysStats_eq_of_kept _).1
    ⟨noWordAtCut_intrLine _, columnsKept_intrLine _, hNumbers⟩

/-- And of this one it does. -/
theorem readSysStats_cut :
    LatencyTest.readSysStats (longLine 5) ≠ LatencyTest.readLines (longLine 5) := by
  intro hSame
  have hNumbers : NumbersKept (longLine 5) :=
    (LatencyTest.eq_iff_numbersKept (noWordAtCut_intrLine _) (columnsKept_intrLine _)).mp hSame
  rw [numbersKept_longLine_iff] at hNumbers
  exact absurd hNumbers (by decide)

end DebugCode.SysStats
