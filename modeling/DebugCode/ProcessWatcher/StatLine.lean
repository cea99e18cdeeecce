import DebugCode.ProcessWatcher.Gather

/-!
# The line of a process

The kernel writes the command name of a process in parentheses and otherwise unchanged. The
format of `sscanf` reads it with `%s`, up to the first white space, so the fields behind a
name with white space in it are not where the format looks for them.

* `scanStat_of_word`: a line whose name has no white space is read.
* `scanStat_of_space`: a line whose name has some is not.
* `scanStat_text_iff`: which lines deliver the times of the process.
-/

namespace DebugCode.ProcessWatcher

open Lib

def isLetter (c : UInt8) : Bool := (65 ≤ c && c ≤ 90) || (97 ≤ c && c ≤ 122)

/-- A line `pid (comm) state f4 ... f15 ...` of `/proc/<pid>/stat`, with what the buffer holds
from the end of field 15 on. -/
structure StatLine where
  pid : Nat
  comm : List UInt8
  state : UInt8
  /-- The fields 4 to 13. -/
  fields : List Int
  utime : Nat
  stime : Nat
  rest : List UInt8
  comm_nul_free : 0 ∉ comm
  comm_length : comm.length ≤ 15
  state_letter : isLetter state = true
  fields_length : fields.length = 10
  utime_lt : utime < 2 ^ 64
  stime_lt : stime < 2 ^ 64
  rest_end : rest.head?.any isdigit = false

namespace StatLine

/-- The state and the fields behind it. -/
def tail (line : StatLine) : List UInt8 :=
  32 :: line.state :: (line.fields.flatMap (fun v => 32 :: signedDecimal v) ++
    32 :: (decimal line.utime ++ 32 :: (decimal line.stime ++ line.rest)))

/-- The contents of the buffer. -/
def text (line : StatLine) : List UInt8 :=
  decimal line.pid ++ 32 :: 40 :: (line.comm ++ 41 :: line.tail)

end StatLine

/-! ## The directives -/

/-- The directives for the fields 4 to 15, with the white space in front of each. -/
def fieldFormat : List Directive :=
  (List.replicate 10 [.space, .int false]).flatten ++ [.space, .uint true, .space, .uint true]

theorem statFormat_eq :
    statFormat = [.int false, .space, .word true, .space, .word false] ++ fieldFormat := rfl

theorem isLetter_barrier {c : UInt8} (hc : isLetter c = true) : Barrier c := by
  simp only [isLetter, Bool.or_eq_true, Bool.and_eq_true, decide_eq_true_eq] at hc
  constructor
  · simp only [isspace, Bool.or_eq_false_iff, Bool.and_eq_false_iff, decide_eq_false_iff_not]
    grind
  · simp only [isdigit, Bool.and_eq_false_iff, decide_eq_false_iff_not]
    grind
  · grind

theorem barrier_paren : Barrier 41 := ⟨rfl, rfl, by decide⟩

/-- A number behind one blank. -/
theorem scanDigits_blank_decimal {s : List UInt8} (hEnd : s.head?.any isdigit = false) (v : Nat) :
    scanDigits (32 :: (decimal v ++ s)) = some (false, v, s) := by
  rw [← scanDigits_dropWhile, List.dropWhile_cons_of_pos rfl, scanDigits_dropWhile,
    scanDigits_decimal hEnd]

/-- A text with white space in it begins with a word, perhaps an empty one. -/
theorem exists_word_of_space {s : List UInt8} (hSpace : ∃ c ∈ s, isspace c = true) :
    ∃ w b u, s = w ++ b :: u ∧ (∀ c ∈ w, isspace c = false) ∧ isspace b = true := by
  induction s with
  | nil =>
    obtain ⟨c, hc, -⟩ := hSpace
    cases hc
  | cons a s ih =>
    cases ha : isspace a with
    | true => exact ⟨[], a, s, rfl, by simp, ha⟩
    | false =>
      have hRest : ∃ c ∈ s, isspace c = true := by
        obtain ⟨c, hc, hcSpace⟩ := hSpace
        rcases List.mem_cons.mp hc with rfl | hc
        · rw [ha] at hcSpace
          cases hcSpace
        · exact ⟨c, hc, hcSpace⟩
      obtain ⟨w, b, u, rfl, hWord, hb⟩ := ih hRest
      refine ⟨a :: w, b, u, rfl, ?_, hb⟩
      intro c hc
      rcases List.mem_cons.mp hc with rfl | hc
      · exact ha
      · exact hWord c hc

namespace StatLine

variable (line : StatLine)

/-- What `sscanf` sees of the line. -/
def visible : StatLine :=
  { line with
    rest := (CString.ofBuffer line.rest).bytes
    rest_end := by
      have hEnd := line.rest_end
      rw [CString.ofBuffer]
      cases h : line.rest with
      | nil => rfl
      | cons c rest =>
        rw [h] at hEnd
        by_cases hNul : c = 0
        · simp [hNul]
        · simpa [hNul] using hEnd }

theorem text_eq : line.text =
    (decimal line.pid ++ 32 :: 40 :: (line.comm ++ 41 :: 32 :: line.state ::
      (line.fields.flatMap (fun v => 32 :: signedDecimal v) ++
        32 :: (decimal line.utime ++ 32 :: decimal line.stime)))) ++ line.rest := by
  simp [text, tail]

theorem ofBuffer_text : (CString.ofBuffer line.text).bytes = line.visible.text := by
  have hDecimal : ∀ v, 0 ∉ decimal v := by
    intro v hIn
    have hDigit := decimal_isdigit v 0 hIn
    cases hDigit
  have hState : line.state ≠ 0 := by
    intro hZero
    have hLetter := line.state_letter
    rw [hZero] at hLetter
    cases hLetter
  have hSigned : ∀ v, 0 ∉ signedDecimal v := by
    intro v
    rw [signedDecimal]
    split_ifs
    · exact List.not_mem_cons_of_ne_of_not_mem (by decide) (hDecimal _)
    · exact hDecimal _
  rw [line.text_eq, line.visible.text_eq]
  apply List.takeWhile_append_of_pos
  intro c hc
  have hNe : c ≠ 0 := by
    rintro rfl
    simp [hDecimal, hSigned, hState.symm, line.comm_nul_free] at hc
  simpa using hNe

/-- The number and the parenthesis in front of the name. -/
theorem scan_text : scan statFormat line.text =
    scan ([.word true, .space, .word false] ++ fieldFormat)
      (40 :: (line.comm ++ 41 :: line.tail)) := by
  have hPid : scanDigits (decimal line.pid ++ 32 :: 40 :: (line.comm ++ 41 :: line.tail)) =
      some (false, line.pid, 32 :: 40 :: (line.comm ++ 41 :: line.tail)) :=
    scanDigits_decimal rfl line.pid
  rw [statFormat_eq, text]
  simp only [List.cons_append, scan, hPid, Bool.false_eq_true, if_false, List.nil_append]
  rfl

/-- Behind the name and the state the format finds the fields. -/
theorem scan_fields : scan fieldFormat
    (line.fields.flatMap (fun v => 32 :: signedDecimal v) ++
      32 :: (decimal line.utime ++ 32 :: (decimal line.stime ++ line.rest))) =
    [.uint line.utime, .uint line.stime] := by
  have hEnd : (32 :: (decimal line.utime ++ 32 :: (decimal line.stime ++ line.rest))).head?.any
      isdigit = false := rfl
  have hSkip := scan_skip_ints hEnd line.fields [.space, .uint true, .space, .uint true]
  have hUtime : scanDigits (32 :: (decimal line.utime ++ 32 :: (decimal line.stime ++ line.rest))) =
      some (false, line.utime, 32 :: (decimal line.stime ++ line.rest)) :=
    scanDigits_blank_decimal rfl line.utime
  have hStime := scanDigits_blank_decimal line.rest_end line.stime
  rw [line.fields_length] at hSkip
  rw [fieldFormat, hSkip, scan_space_uint, scan, hUtime]
  simp only [if_true]
  rw [scan_space_uint, scan, hStime]
  simp only [if_true, scan, clampUlong_of_lt line.utime_lt, clampUlong_of_lt line.stime_lt]

/-- A name without white space is one word, and the state is the next. -/
theorem scan_text_of_word (hWord : ∀ c ∈ line.comm, isspace c = false) :
    scan statFormat line.text =
      [.word (40 :: (line.comm ++ [41])), .uint line.utime, .uint line.stime] := by
  have hName : ∀ c ∈ 40 :: (line.comm ++ [41]), isspace c = false := by
    intro c hc
    rcases List.mem_cons.mp hc with rfl | hc
    · rfl
    · rcases List.mem_append.mp hc with hc | hc
      · exact hWord c hc
      · rw [List.mem_singleton.mp hc]
        rfl
  have hLetter := isLetter_barrier line.state_letter
  have hState : ∀ c ∈ [line.state], isspace c = false := by
    intro c hc
    rw [List.mem_singleton.mp hc]
    exact hLetter.not_space
  have hText : 40 :: (line.comm ++ 41 :: line.tail) =
      40 :: (line.comm ++ [41]) ++ 32 :: (line.tail.drop 1) := by
    simp [tail]
  have hFields : ∃ s, line.fields.flatMap (fun v => 32 :: signedDecimal v) ++
      32 :: (decimal line.utime ++ 32 :: (decimal line.stime ++ line.rest)) = 32 :: s := by
    cases line.fields with
    | nil => exact ⟨_, rfl⟩
    | cons v vs => exact ⟨_, rfl⟩
  have hSpace : (32 :: line.tail.drop 1).dropWhile isspace = line.tail.drop 1 := by
    rw [List.dropWhile_cons_of_pos rfl]
    exact List.dropWhile_cons_of_neg (by simp [hLetter.not_space])
  have hRest := line.scan_fields
  obtain ⟨s, hs⟩ := hFields
  have hTail : line.tail.drop 1 = [line.state] ++ 32 :: s := by rw [← hs]; rfl
  rw [hs] at hRest
  rw [scan_text, hText, List.cons_append, scan_word hName (List.cons_ne_nil _ _) rfl, if_pos rfl,
    List.cons_append, scan, hSpace, hTail, List.cons_append, List.nil_append,
    scan_word hState (List.cons_ne_nil _ _) rfl, if_neg Bool.false_ne_true, hRest]

/-- Where less than a number and a letter is left, the format finds no fields. -/
theorem scan_fieldFormat_eq_nil {v : List UInt8} {c : UInt8} (hc : Barrier c)
    (hHead : v.head?.any isdigit = false) (hShort : v.length < 20) (t : List UInt8) :
    scan fieldFormat (v ++ c :: t) = [] :=
  scan_ints_eq_nil hc hHead hShort t _

/-- Behind the first white space of the name the format takes a word for the state, and then
looks for the fields in what is left of the name or at the state. -/
theorem scan_state_in_comm {u : List UInt8} (hLength : u.length < 15) :
    scan (.word false :: fieldFormat) (u.dropWhile isspace ++ 41 :: line.tail) = [] := by
  have hSkip := List.length_dropWhile_le isspace u
  by_cases hMore : ∃ c ∈ u.dropWhile isspace, isspace c = true
  · -- the second word ends inside the name
    obtain ⟨w, b, v, hRest, hWord, hb⟩ := exists_word_of_space hMore
    have hNonempty : w ≠ [] := by
      rintro rfl
      have hHead := List.head?_dropWhile_not isspace u
      simp [hRest, hb] at hHead
    rw [hRest, List.length_append, List.length_cons] at hSkip
    rw [hRest, List.append_assoc, List.cons_append, scan_word hWord hNonempty hb,
      if_neg Bool.false_ne_true]
    exact scan_fieldFormat_eq_nil (v := b :: v) barrier_paren (not_isdigit_of_isspace hb)
      (by rw [List.length_cons]; omega) line.tail
  · -- the second word is the end of the name with the parenthesis
    have hWord : ∀ c ∈ u.dropWhile isspace ++ [41], isspace c = false := by
      intro c hc
      rcases List.mem_append.mp hc with hc | hc
      · by_contra hc'
        exact hMore ⟨c, hc, Bool.not_eq_false _ ▸ hc'⟩
      · rw [List.mem_singleton.mp hc]
        rfl
    have hTail : u.dropWhile isspace ++ 41 :: line.tail =
        u.dropWhile isspace ++ [41] ++ 32 :: (line.tail.drop 1) := by
      simp [tail]
    have hNonempty : u.dropWhile isspace ++ [41] ≠ [] :=
      List.append_ne_nil_of_right_ne_nil _ (List.cons_ne_nil _ _)
    rw [hTail, scan_word hWord hNonempty rfl, if_neg Bool.false_ne_true]
    exact scan_fieldFormat_eq_nil (v := [32]) (isLetter_barrier line.state_letter) rfl (by decide) _

/-- Of a name with white space the format takes the first word. -/
theorem scan_text_of_space (hSpace : ∃ c ∈ line.comm, isspace c = true) :
    ∃ w, scan statFormat line.text = [.word w] := by
  obtain ⟨w, b, u, hComm, hWord, hb⟩ := exists_word_of_space hSpace
  have hName : ∀ c ∈ 40 :: w, isspace c = false := by
    intro c hc
    rcases List.mem_cons.mp hc with rfl | hc
    · rfl
    · exact hWord c hc
  have hText : 40 :: (line.comm ++ 41 :: line.tail) = 40 :: w ++ b :: (u ++ 41 :: line.tail) := by
    rw [hComm]
    simp
  have hLength := line.comm_length
  rw [hComm, List.length_append, List.length_cons] at hLength
  have hState := line.scan_state_in_comm (u := u) (by omega)
  refine ⟨40 :: w, ?_⟩
  rw [scan_text, hText, List.cons_append, scan_word hName (List.cons_ne_nil _ _) hb, if_pos rfl,
    List.cons_append, scan, List.dropWhile_cons_of_pos hb, dropWhile_barrier rfl]
  exact congrArg (Assigned.word (40 :: w) :: ·) hState

end StatLine

/-! ## What is read -/

theorem sscanf_text (line : StatLine) :
    sscanf line.text statFormat = scan statFormat line.visible.text := by
  rw [sscanf, line.ofBuffer_text]

/-- A line whose name has white space in it is not read. -/
theorem scanStat_of_space {line : StatLine} (hSpace : ∃ c ∈ line.comm, isspace c = true) :
    scanStat line.text = none := by
  obtain ⟨w, hWord⟩ := line.visible.scan_text_of_space hSpace
  rw [scanStat, sscanf_text, hWord]

/-- A line whose name has no white space is read, the name with its parentheses. -/
theorem scanStat_of_word {line : StatLine} (hWord : ∀ c ∈ line.comm, isspace c = false) :
    scanStat line.text = some ⟨40 :: (line.comm ++ [41]), UInt32.ofNat line.utime,
      UInt32.ofNat line.stime⟩ := by
  rw [scanStat, sscanf_text, line.visible.scan_text_of_word hWord]
  rfl

/-- A line delivers the times of the process exactly when its name has no white space. -/
theorem scanStat_text_iff (line : StatLine) :
    (∃ name, scanStat line.text =
        some ⟨name, UInt32.ofNat line.utime, UInt32.ofNat line.stime⟩) ↔
      ∀ c ∈ line.comm, isspace c = false := by
  constructor
  · intro hRead c hc
    by_contra hSpace
    obtain ⟨name, hStat⟩ := hRead
    rw [scanStat_of_space ⟨c, hc, Bool.not_eq_false _ ▸ hSpace⟩] at hStat
    cases hStat
  · intro hWord
    exact ⟨_, scanStat_of_word hWord⟩

/-- The line of a browser's helper process. -/
def webContent : StatLine where
  pid := 4711
  comm := ascii "Web Content"
  state := 83
  fields := [1, 1, 1, 0, -1, 4194560, 100, 200, 10, 20]
  utime := 5
  stime := 7
  rest := ascii " 0 0\n"
  comm_nul_free := by decide +kernel
  comm_length := by decide +kernel
  state_letter := rfl
  fields_length := rfl
  utime_lt := by decide
  stime_lt := by decide
  rest_end := rfl

/-- Its times are not read. -/
theorem scanStat_webContent :
    webContent.text =
        ascii "4711 (Web Content) S 1 1 1 0 -1 4194560 100 200 10 20 5 7 0 0\n" ∧
      ¬ ∃ name, scanStat webContent.text = some ⟨name, 5, 7⟩ := by
  refine ⟨by decide +kernel, ?_⟩
  intro hRead
  obtain ⟨name, hStat⟩ := hRead
  rw [scanStat_of_space ⟨32, by decide +kernel, rfl⟩] at hStat
  cases hStat

end DebugCode.ProcessWatcher
