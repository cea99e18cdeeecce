import DebugCode.Lib.CInt
import DebugCode.Lib.Scanf
import Mathlib.Algebra.BigOperators.Group.List.Basic

/-!
# Rows of numbers

A row of decimal numbers, each behind a blank, as files of the kernel have them, and the
two ways in which programs read them: by `%d` and by `atoi`.

* `scanWord_word`: `%9s` and the like take a word, or the beginning of it.
* `scan_ints`: a row is read by as many `%d`.
* `atoi_decimal_append`: `atoi` reads the number it is put on.
-/

namespace DebugCode.Lib

/-- Numbers as `" %u"` prints them. -/
def row (vs : List ℕ) : List UInt8 := vs.flatMap fun v => 32 :: decimal v

/-- `" %d"`, `n` times. -/
def ints (n : ℕ) : List Directive := (List.replicate n [.space, .int true]).flatten

/-- `%9s` and the like: a word, of which at most `width` characters are taken. -/
def scanWord (width : ℕ) (s : List UInt8) : Option (List UInt8 × List UInt8) :=
  let s := s.dropWhile isspace
  match (s.takeWhile fun c => !isspace c).take width with
  | [] => none
  | w => some (w, s.drop w.length)

/-- The number at a place of what `sscanf` assigned to variables of type `int`. -/
def intAt (assigned : List Assigned) (i : ℕ) : Option Int :=
  match assigned[i]? with
  | some (.int v) => some (toInt v)
  | _ => none

/-! ## Rows -/

@[simp] theorem row_nil : row [] = [] := rfl

theorem row_cons (v : ℕ) (vs : List ℕ) : row (v :: vs) = 32 :: (decimal v ++ row vs) := rfl

/-- Behind a row, as in front of it, there is no digit. -/
theorem row_head (vs : List ℕ) {rest : List UInt8} (hEnd : rest.head?.any isdigit = false) :
    (row vs ++ rest).head?.any isdigit = false := by
  cases vs with
  | nil => exact hEnd
  | cons v vs => rfl

theorem row_bytes {ns : List ℕ} {c : UInt8} (h : c ∈ row ns) : c = 32 ∨ isdigit c = true := by
  obtain ⟨n, -, hc⟩ := List.mem_flatMap.mp h
  rcases List.mem_cons.mp hc with rfl | hDigit
  · exact Or.inl rfl
  · exact Or.inr (decimal_isdigit n c hDigit)

theorem clampLong_of_lt {v : ℕ} (hv : v < 2 ^ 63) : clampLong false v = v :=
  min_eq_left (by omega)

/-- The numbers that `%d` finds in a row. -/
theorem scan_ints (vs : List ℕ) {rest : List UInt8} (hEnd : rest.head?.any isdigit = false) :
    scan (ints vs.length) (row vs ++ rest) = vs.map fun v => .int (clampLong false v) := by
  induction vs with
  | nil => rfl
  | cons v vs ih =>
    have hFormat : ints (v :: vs).length = .space :: .int true :: ints vs.length := rfl
    have hNumber : scanDigits (32 :: (decimal v ++ (row vs ++ rest))) =
        some (false, v, row vs ++ rest) := by
      rw [← scanDigits_dropWhile, List.dropWhile_cons_of_pos rfl, scanDigits_dropWhile,
        scanDigits_decimal (row_head vs hEnd)]
    rw [row_cons, List.cons_append, List.append_assoc, hFormat, scan_space_int, scan, hNumber]
    simp only [if_true, ih, List.map_cons]

/-- Blanks in front of a row do not matter. -/
theorem scan_ints_blanks (n k : ℕ) (s : List UInt8) :
    scan (ints (n + 1)) (List.replicate k 32 ++ s) = scan (ints (n + 1)) s := by
  have hFormat : ints (n + 1) = .space :: .int true :: ints n := rfl
  have hSkip : ∀ c ∈ List.replicate k (32 : UInt8), isspace c = true := by
    intro c hc
    rw [(List.mem_replicate.mp hc).2]
    rfl
  rw [hFormat, scan, scan, List.dropWhile_append_of_pos hSkip]

/-- Where a word begins and ends that has white space behind it. -/
theorem span_word {blanks word : List UInt8} (hBlanks : ∀ c ∈ blanks, isspace c = true)
    (hSome : word ≠ []) (hWord : ∀ c ∈ word, isspace c = false) {b : UInt8}
    (hSpace : isspace b = true) (s : List UInt8) :
    (blanks ++ (word ++ b :: s)).dropWhile isspace = word ++ b :: s ∧
      ((word ++ b :: s).takeWhile fun c => !isspace c) = word ∧
      ((word ++ b :: s).dropWhile fun c => !isspace c) = b :: s := by
  have hKeep : ∀ c ∈ word, (!isspace c) = true := fun c hc => by simp [hWord c hc]
  have hStop : ¬ (!isspace b) = true := by simp [hSpace]
  refine ⟨?_, ?_, ?_⟩
  · rw [List.dropWhile_append_of_pos hBlanks]
    obtain ⟨c, w, rfl⟩ := List.exists_cons_of_ne_nil hSome
    exact List.dropWhile_cons_of_neg (by simp [hWord c List.mem_cons_self])
  · rw [List.takeWhile_append_of_pos hKeep, List.takeWhile_cons_of_neg (by exact hStop),
      List.append_nil]
  · rw [List.dropWhile_append_of_pos hKeep]
    exact List.dropWhile_cons_of_neg hStop

/-- A word, of which `%9s` and the like take the beginning. -/
theorem scanWord_word {width : ℕ} (hWidth : 0 < width) {blanks word : List UInt8}
    (hBlanks : ∀ c ∈ blanks, isspace c = true) (hSome : word ≠ [])
    (hWord : ∀ c ∈ word, isspace c = false) {b : UInt8} (hSpace : isspace b = true)
    (s : List UInt8) : scanWord width (blanks ++ (word ++ b :: s)) =
      some (word.take width, word.drop width ++ b :: s) := by
  obtain ⟨hStart, hTake, -⟩ := span_word hBlanks hSome hWord hSpace s
  have hDrop : (word ++ b :: s).drop (word.take width).length = word.drop width ++ b :: s := by
    rw [List.length_take, List.drop_append_of_le_length (Nat.min_le_right _ _)]
    congr 1
    rcases Nat.le_total width word.length with hLe | hLe
    · rw [Nat.min_eq_left hLe]
    · rw [Nat.min_eq_right hLe, List.drop_length, List.drop_eq_nil_of_le hLe]
  have hFirst : word.take width ≠ [] := by
    obtain ⟨c, w, rfl⟩ := List.exists_cons_of_ne_nil hSome
    obtain ⟨k, rfl⟩ := Nat.exists_eq_add_one.mpr hWidth
    exact List.cons_ne_nil c _
  obtain ⟨c, w, hCons⟩ := List.exists_cons_of_ne_nil hFirst
  rw [hCons] at hDrop ⊢
  simp only [scanWord, hStart, hTake, hCons, hDrop]

/-- A word with white space behind it. -/
theorem scanWord_of_space {w : List UInt8} {width : ℕ} (hWord : ∀ c ∈ w, isspace c = false)
    (hSome : w ≠ []) (hFits : w.length ≤ width) {b : UInt8} (hSpace : isspace b = true)
    (s : List UInt8) : scanWord width (w ++ b :: s) = some (w, b :: s) := by
  have hWidth : 0 < width := (List.length_pos_iff.mpr hSome).trans_le hFits
  have hScan := scanWord_word hWidth (List.forall_mem_nil _) hSome hWord hSpace s
  rw [List.take_of_length_le hFits, List.drop_eq_nil_of_le hFits] at hScan
  exact hScan

theorem scanWord_of_blank {w : List UInt8} {width : ℕ} (hWord : ∀ c ∈ w, isspace c = false)
    (hSome : w ≠ []) (hFits : w.length ≤ width) (s : List UInt8) :
    scanWord width (w ++ 32 :: s) = some (w, 32 :: s) :=
  scanWord_of_space hWord hSome hFits rfl s

/-- `atoi` stops behind the digits. -/
theorem atoi_decimal_append (v : ℕ) {rest : List UInt8} (hEnd : rest.head?.any isdigit = false) :
    atoi (decimal v ++ rest) = toInt (clampLong false v) := by
  obtain ⟨c, cs, hDecimal, hc⟩ := decimal_head v
  have hStart : (decimal v ++ rest).dropWhile isspace = decimal v ++ rest := by
    rw [hDecimal]
    exact List.dropWhile_cons_of_neg (by simp [not_isspace_of_isdigit hc])
  have hHead : (decimal v ++ rest).head? = some c := by rw [hDecimal]; rfl
  have hSign := not_sign_of_isdigit hc
  simp only [atoi, strtol, hStart, hHead, Option.some.injEq, hSign.1, hSign.2, or_self, if_false,
    (span_digits hEnd (decimal_isdigit v)).1, digitsValue_decimal]
  rfl

end DebugCode.Lib
