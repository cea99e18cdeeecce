import DebugCode.SysStats.Read

/-!
# The count of interrupts

The first number of the `intr` line is the total over all interrupts, those behind it are
the counts of the single ones. Both programs add up all numbers of the line.

* `intrSum_eq`: whatever the line holds, it is the sum of its numbers modulo 2³².
* `intrSum_row`: for a row of decimal numbers, of these.
* `irqs_eq_iff`: it is the total exactly when the single counts add up to a multiple of 2³².
-/

namespace DebugCode.SysStats

open Lib

/-- `intr`, its numbers and the end of the line. -/
def intrLine (ns : List ℕ) : List UInt8 := ascii "intr" ++ row ns ++ [10]

/-- The numbers as `atoi` reads them, added up. -/
def counted (ns : List ℕ) : Int := (ns.map (clampLong false)).sum

theorem counted_cons (n : ℕ) (ns : List ℕ) : counted (n :: ns) = clampLong false n + counted ns :=
  List.sum_cons

theorem counted_of_lt {ns : List ℕ} (hSmall : ∀ n ∈ ns, n < 2 ^ 63) :
    counted ns = (ns.sum : ℕ) := by
  induction ns with
  | nil => rfl
  | cons n ns ih =>
    rw [counted_cons, ih fun m hm => hSmall m (List.mem_cons_of_mem _ hm),
      clampLong_of_lt (hSmall n List.mem_cons_self), List.sum_cons, Nat.cast_add]

/-- One number behind every run of blanks, as far as blanks and numbers take turns. -/
def numbers (ptr : List UInt8) : List Int :=
  if ptr.head? = some 32 then
    atoi (ptr.dropWhile (· = 32)) :: numbers ((ptr.dropWhile (· = 32)).dropWhile isdigit)
  else []
termination_by ptr.length
decreasing_by
  rename_i hBlank
  exact length_dropWhile_lt hBlank

/-- The numbers of an `intr` line. -/
def intrNumbers (text : CString) : List Int := numbers (text.bytes.drop 4)

/-! ## The loop -/

/-- The sum wraps every time, and so as a whole. -/
theorem irqLoop_eq (ptr : List UInt8) (x : Int) :
    irqLoop ptr (toInt x) = toInt (x + (numbers ptr).sum) := by
  induction ptr using numbers.induct generalizing x with
  | case1 ptr hBlank ih =>
    rw [irqLoop, numbers, if_pos hBlank, if_pos hBlank, toInt_toInt_add, ih, List.sum_cons,
      Int.add_assoc]
  | case2 ptr hBlank =>
    rw [irqLoop, numbers, if_neg hBlank, if_neg hBlank, List.sum_nil, Int.add_zero]

theorem intrSum_eq (text : CString) : intrSum text = toInt (intrNumbers text).sum := by
  have hStart : (0 : Int) = toInt 0 := by decide
  rw [intrSum, hStart, irqLoop_eq, Int.zero_add]
  rfl

/-! ## The numbers -/

theorem numbers_of_not_blank {ptr : List UInt8} (h : ptr.head? ≠ some 32) : numbers ptr = [] := by
  rw [numbers, if_neg h]

/-- One number, in front of what does not go on with a digit. -/
theorem numbers_number (v : ℕ) {rest : List UInt8} (hEnd : rest.head?.any isdigit = false) :
    numbers (32 :: (decimal v ++ rest)) = toInt (clampLong false v) :: numbers rest := by
  obtain ⟨c, cs, hDecimal, hc⟩ := decimal_head v
  have hBlank : c ≠ 32 := by
    rintro rfl
    cases hc
  have hStart : (32 :: (decimal v ++ rest)).dropWhile (fun b => decide (b = 32)) =
      decimal v ++ rest := by
    rw [List.dropWhile_cons_of_pos (by rfl), hDecimal]
    exact List.dropWhile_cons_of_neg (by simpa using hBlank)
  rw [numbers, if_pos (List.head?_cons ..), hStart, atoi_decimal_append v hEnd,
    (span_digits hEnd (decimal_isdigit v)).2]

theorem numbers_row (ns : List ℕ) {rest : List UInt8} (hEnd : rest.head?.any isdigit = false) :
    numbers (row ns ++ rest) = (ns.map fun n => toInt (clampLong false n)) ++ numbers rest := by
  induction ns with
  | nil => rfl
  | cons n ns ih =>
    rw [row_cons, List.cons_append, List.append_assoc, numbers_number n (row_head ns hEnd), ih]
    rfl

/-- The sum wraps as a whole. -/
theorem toInt_sum_counted (ns : List ℕ) (x : Int) :
    toInt ((ns.map fun n => toInt (clampLong false n)).sum + x) = toInt (counted ns + x) := by
  induction ns generalizing x with
  | nil => rfl
  | cons n ns ih =>
    rw [List.map_cons, List.sum_cons, Int.add_assoc, toInt_toInt_add, Int.add_left_comm, ih,
      counted_cons, Int.add_left_comm, Int.add_assoc]

/-! ## The line -/

/-- The line has no `NUL` and no end but its own. -/
theorem intrLine_bytes {ns : List ℕ} {c : UInt8} (h : c ∈ ascii "intr" ++ row ns) :
    c ≠ 0 ∧ c ≠ 10 := by
  rcases List.mem_append.mp h with hWord | hRow
  · have hLetters : ∀ c ∈ ascii "intr", c ≠ 0 ∧ c ≠ 10 := by simp [ascii_intr]
    exact hLetters c hWord
  · rcases row_bytes hRow with rfl | hDigit
    · exact ⟨by decide, by decide⟩
    · refine ⟨?_, ?_⟩
      · rintro rfl
        cases hDigit
      · rintro rfl
        cases hDigit

theorem isLine_intrLine (ns : List ℕ) : IsLine 10 (intrLine ns) :=
  isLine_of_not_mem fun h => (intrLine_bytes h).2 rfl

theorem ofBuffer_intrLine (ns : List ℕ) :
    (CString.ofBuffer (intrLine ns)).bytes = intrLine ns := by
  have hNul : 0 ∉ intrLine ns := by
    intro h
    rcases List.mem_append.mp h with hText | hEnd
    · exact (intrLine_bytes hText).1 rfl
    · cases List.mem_singleton.mp hEnd
  exact congrArg CString.bytes (CString.ofBuffer_bytes ⟨intrLine ns, hNul⟩)

theorem beginsWith_intrLine (ns : List ℕ) :
    beginsWith intrWord (CString.ofBuffer (intrLine ns)) = true := by
  rw [beginsWith_iff, ofBuffer_intrLine, CString.strlen, intrWord_bytes, intrLine,
    List.append_assoc, List.take_left]

/-- The numbers of a row, and of what is behind it. -/
theorem intrSum_row {text : CString} {ns : List ℕ} {rest : List UInt8}
    (hText : text.bytes = ascii "intr" ++ row ns ++ rest)
    (hEnd : rest.head?.any isdigit = false) :
    intrSum text = toInt (counted ns + (numbers rest).sum) := by
  have hWord : (ascii "intr").length = 4 := rfl
  rw [intrSum_eq, intrNumbers, hText, List.append_assoc, ← hWord, List.drop_left,
    numbers_row ns hEnd, List.sum_append, toInt_sum_counted]

/-- What the programs make of the line. -/
theorem intrSum_intrLine (ns : List ℕ) :
    intrSum (CString.ofBuffer (intrLine ns)) = toInt (counted ns) := by
  rw [intrSum_row (ofBuffer_intrLine ns) rfl, numbers_of_not_blank (by decide), List.sum_nil,
    Int.add_zero]

/-! ## The file -/

theorem LatencyTest.sets_irqs (text : CString) : sets text .irqs =
    if beginsWith intrWord text then some (intrSum text) else none := by
  simp [sets, Field.word]

theorem HzTest.sets_irqs (text : CString) : sets text .irqs = LatencyTest.sets text .irqs := by
  simp [sets, LatencyTest.sets]

/-- The last buffer that is filled from a file and begins with `intr`. -/
def lastIntr (file : List UInt8) : Option CString :=
  (buffers file).reverse.find? (beginsWith intrWord)

/-- The numbers that the program adds up come to the total: those of the line itself, or of
a later text that it takes for such a line. -/
def TotalShown (total : ℕ) (counts : List ℕ) (after : List UInt8) : Prop :=
  match lastIntr after with
  | none => 2 ^ 32 ∣ counted (total :: counts) - total
  | some text => 2 ^ 32 ∣ (intrNumbers text).sum - total

/-- The first element that counts, where some count and the others do not. -/
theorem findSome?_ite {α β : Type*} (p : α → Bool) (g : α → β) (l : List α) :
    (l.findSome? fun x => if p x then some (g x) else none) = (l.find? p).map g := by
  induction l with
  | nil => rfl
  | cons x l ih =>
    rw [List.findSome?_cons, List.find?_cons, ih]
    cases p x with
    | true => rfl
    | false => rfl

theorem lastSet_irqs (file : List UInt8) :
    lastSet LatencyTest.sets (buffers file) .irqs = (lastIntr file).map intrSum := by
  rw [lastSet, lastIntr, ← findSome?_ite]
  simp only [LatencyTest.sets_irqs]

/-- The `intr` line counts unless a later buffer begins with that word. -/
theorem lastIntr_line {before after : List UInt8} {ns : List ℕ} (hBefore : Complete 10 before)
    (hFits : (intrLine ns).length < 4096) :
    lastIntr (before ++ intrLine ns ++ after) =
      (lastIntr after).or (some (CString.ofBuffer (intrLine ns))) := by
  have hComplete : Complete 10 (intrLine ns) := complete_append_eol _
  rw [lastIntr, List.append_assoc, buffers_append hBefore, buffers_append hComplete,
    buffers_line (isLine_intrLine ns) hFits, List.reverse_append, List.reverse_append,
    List.append_assoc, List.find?_append, List.find?_append, List.reverse_singleton,
    List.find?_singleton, if_pos (beginsWith_intrLine ns), Option.some_or]
  rfl

theorem lastSet_total_iff {before after : List UInt8} {total : ℕ} {counts : List ℕ}
    (hBefore : Complete 10 before) (hFits : (intrLine (total :: counts)).length < 4096) (v : Int) :
    (lastSet LatencyTest.sets (buffers (before ++ intrLine (total :: counts) ++ after))
        .irqs).getD v = toInt total ↔ TotalShown total counts after := by
  rw [lastSet_irqs, lastIntr_line hBefore hFits, TotalShown]
  cases lastIntr after with
  | none =>
    rw [Option.none_or, Option.map_some, Option.getD_some, intrSum_intrLine]
    exact toInt_eq_iff
  | some text =>
    rw [Option.some_or, Option.map_some, Option.getD_some, intrSum_eq]
    exact toInt_eq_iff

/-- Both programs set `irqs` to the total modulo 2³² exactly when what they add up comes to
it. -/
theorem irqs_eq_iff {before after : List UInt8} {total : ℕ} {counts : List ℕ}
    (hBefore : Complete 10 before) (hFits : (intrLine (total :: counts)).length < 4096) :
    ((LatencyTest.readSysStats (before ++ intrLine (total :: counts) ++ after)).irqs =
        toInt total ↔ TotalShown total counts after) ∧
      ∀ init stat,
        HzTest.readSysStats init (before ++ intrLine (total :: counts) ++ after) = some stat →
        (stat.irqs = toInt total ↔ TotalShown total counts after) := by
  constructor
  · have hRead := LatencyTest.get_readTexts
      (buffers (before ++ intrLine (total :: counts) ++ after)) .irqs
    rw [LatencyTest.readSysStats, ← lastSet_total_iff hBefore hFits 0, ← hRead]
    rfl
  · intro init stat hStat
    have hRead := HzTest.get_of_readTexts hStat .irqs
    have hSets : lastSet HzTest.sets
        (buffers (before ++ intrLine (total :: counts) ++ after)) .irqs =
          lastSet LatencyTest.sets
            (buffers (before ++ intrLine (total :: counts) ++ after)) .irqs := by
      simp only [lastSet, HzTest.sets_irqs]
    rw [← lastSet_total_iff hBefore hFits (init.get .irqs), ← hSets, ← hRead]
    rfl

/-- For counts below 2⁶³ and no text that is mistaken for the line, the single counts have to
add up to a multiple of 2³². -/
theorem totalShown_iff {total : ℕ} {counts : List ℕ} {after : List UInt8}
    (hLast : lastIntr after = none) (hSmall : ∀ n ∈ total :: counts, n < 2 ^ 63) :
    TotalShown total counts after ↔ 2 ^ 32 ∣ counts.sum := by
  rw [TotalShown, hLast]
  show 2 ^ 32 ∣ counted (total :: counts) - total ↔ _
  rw [counted_of_lt hSmall, List.sum_cons]
  omega

/-- Interrupts that have not been counted on their own: the total is right. -/
theorem irqs_eq_idle : (LatencyTest.readSysStats (intrLine [5, 0])).irqs = toInt 5 := by
  have hFits : (intrLine [5, 0]).length < 4096 := by decide
  have hShown : TotalShown 5 [0] [] := by
    rw [totalShown_iff rfl (by decide)]
    exact dvd_zero _
  have hTotal := (irqs_eq_iff complete_nil hFits).1.mpr hShown
  rwa [List.append_nil] at hTotal

/-- One interrupt of either of two kinds: the programs count four. -/
theorem irqs_doubled : (LatencyTest.readSysStats (intrLine [2, 1, 1])).irqs = 4 ∧
    (∀ init, ∃ stat, HzTest.readSysStats init (intrLine [2, 1, 1]) = some stat ∧
      stat.irqs = 4) ∧ toInt 2 ≠ 4 := by
  have hBuffers : buffers (intrLine [2, 1, 1]) = [CString.ofBuffer (intrLine [2, 1, 1])] :=
    buffers_line (isLine_intrLine _) (by decide)
  have hSum : intrSum (CString.ofBuffer (intrLine [2, 1, 1])) = 4 := intrSum_intrLine _
  have hSets : LatencyTest.sets (CString.ofBuffer (intrLine [2, 1, 1])) .irqs = some 4 := by
    rw [LatencyTest.sets_irqs, if_pos (beginsWith_intrLine _), hSum]
  refine ⟨?_, ?_, by decide⟩
  · have hRead := LatencyTest.get_readTexts (buffers (intrLine [2, 1, 1])) .irqs
    rw [hBuffers, lastSet_singleton, hSets] at hRead
    rw [LatencyTest.readSysStats, hBuffers]
    exact hRead
  · intro init
    have hRead : HzTest.readSysStats init (intrLine [2, 1, 1]) =
        some (HzTest.assign (CString.ofBuffer (intrLine [2, 1, 1])) init) := by
      have hFits : HzTest.overruns (CString.ofBuffer (intrLine [2, 1, 1])) = false := by
        rfl
      rw [HzTest.readSysStats, hBuffers, HzTest.readTexts_eq]
      simp [hFits]
    refine ⟨_, hRead, ?_⟩
    have hGet := HzTest.get_assign (CString.ofBuffer (intrLine [2, 1, 1])) init .irqs
    rw [HzTest.sets_irqs, hSets] at hGet
    exact hGet

end DebugCode.SysStats
