import Mathlib.Data.List.Basic
import Mathlib.Tactic.Common

/-!
# Lines and buffers

A text file is read into a buffer of fixed size, up to the next end of a line or until the
buffer is full. What a line has more than the buffer holds comes with the next read.

* `pieces_induction`: induction over the pieces of a text.
* `fgetsAll_append`, `lines_flatten`: complete lines are read on their own.
* `fgetsAll_eq_flatMap`: the buffers are those of the lines, one after the other.
* `fgetsAll_line`, `mem_fgetsAll`: a line comes in pieces of the size of the buffer.
-/

namespace DebugCode.Lib

section

variable {α : Type*} {eol : α}

/-- Nothing, or lines of which the last one has its end. -/
def Complete (eol : α) (file : List α) : Prop := ∀ c, file.getLast? = some c → c = eol

theorem Complete.drop {file : List α} (h : Complete eol file) (n : ℕ) :
    Complete eol (file.drop n) := by
  intro c hc
  rw [List.getLast?_drop] at hc
  split_ifs at hc
  exact h c hc

theorem Complete.tail {c : α} {s : List α} (h : Complete eol (c :: s)) : Complete eol s :=
  h.drop 1

theorem complete_nil : Complete eol ([] : List α) := by
  intro c hc
  cases hc

theorem complete_append_eol (text : List α) : Complete eol (text ++ [eol]) := by
  intro c hc
  rw [List.getLast?_concat] at hc
  exact (Option.some.inj hc).symm

/-- Induction over the pieces of a text, when every piece takes something of it. -/
theorem pieces_induction {motive : List α → Prop} (length : List α → ℕ)
    (hPos : ∀ {file : List α}, file ≠ [] → 0 < length file) (nil : motive [])
    (piece : ∀ file, file ≠ [] → motive (file.drop (length file)) → motive file)
    (file : List α) : motive file := by
  induction hLength : file.length using Nat.strongRecOn generalizing file with
  | ind n ih =>
    by_cases hSome : file = []
    · exact hSome ▸ nil
    · have hPiece := hPos hSome
      have hFile := List.length_pos_iff.mpr hSome
      exact piece file hSome (ih _ (by rw [List.length_drop]; omega) _ rfl)

end

section

variable {α : Type*} [DecidableEq α] (eol : α)

/-- The length of the first line, with its end. -/
def lineLength : List α → ℕ
  | [] => 0
  | c :: s => if c = eol then 1 else lineLength s + 1

/-- The lines of a file, each with its end, which the last one need not have. -/
def lines : List α → List (List α)
  | [] => []
  | c :: s =>
    if c = eol then [c] :: lines s
    else match lines s with
      | [] => [[c]]
      | line :: rest => (c :: line) :: rest

/-- The characters one call of `fgets` delivers. One place of the buffer is for the `NUL`. -/
def fgetsLength (size : ℕ) (file : List α) : ℕ := min (size - 1) (lineLength eol file)

/-- The rounds of `while (fgets(buffer, size, file) != NULL)`, at most `fuel`. -/
def fgetsLoop (size : ℕ) : ℕ → List α → List (List α)
  | 0, _ => []
  | _ + 1, [] => []
  | fuel + 1, c :: s =>
    (c :: s).take (fgetsLength eol size (c :: s)) ::
      fgetsLoop size fuel ((c :: s).drop (fgetsLength eol size (c :: s)))

/-- The contents of the buffer in all rounds; there are not more than characters. -/
def fgetsAll (size : ℕ) (file : List α) : List (List α) := fgetsLoop eol size file.length file

/-- A single line, with its end or not. -/
def IsLine (line : List α) : Prop := line ≠ [] ∧ lineLength eol line = line.length

end

section

variable {α : Type*} [DecidableEq α] {eol : α}

/-! ## Lines -/

theorem lineLength_pos {file : List α} (h : file ≠ []) : 0 < lineLength eol file := by
  cases file with
  | nil => exact absurd rfl h
  | cons c s =>
    rw [lineLength]
    split_ifs
    · exact Nat.one_pos
    · exact Nat.succ_pos _

theorem lineLength_le (file : List α) : lineLength eol file ≤ file.length := by
  induction file with
  | nil => exact Nat.le_refl _
  | cons c s ih =>
    rw [lineLength, List.length_cons]
    split_ifs
    · omega
    · omega

/-- The first line of complete lines ends among them. -/
theorem lineLength_append {file : List α} (h : Complete eol file) (hSome : file ≠ [])
    (rest : List α) : lineLength eol (file ++ rest) = lineLength eol file := by
  induction file with
  | nil => exact absurd rfl hSome
  | cons c s ih =>
    rw [List.cons_append, lineLength, lineLength]
    split_ifs with hEnd
    · rfl
    · have hMore : s ≠ [] := by
        rintro rfl
        exact hEnd (h c rfl)
      rw [ih h.tail hMore]

/-- The lines are the first one and those behind it. -/
theorem lines_cons {file : List α} (h : file ≠ []) :
    lines eol file =
      file.take (lineLength eol file) :: lines eol (file.drop (lineLength eol file)) := by
  induction file with
  | nil => exact absurd rfl h
  | cons c s ih =>
    rw [lines, lineLength]
    split_ifs with hEnd
    · rfl
    · by_cases hLast : s = []
      · subst hLast
        rfl
      · rw [ih hLast]
        rfl

theorem lines_of_isLine {line : List α} (h : IsLine eol line) : lines eol line = [line] := by
  rw [lines_cons h.1, h.2, List.take_length, List.drop_length]
  rfl

theorem isLine_take {file : List α} (h : file ≠ []) :
    IsLine eol (file.take (lineLength eol file)) := by
  induction file with
  | nil => exact absurd rfl h
  | cons c s ih =>
    rw [lineLength]
    split_ifs with hEnd
    · exact ⟨List.cons_ne_nil _ _, by simp [lineLength, hEnd]⟩
    · refine ⟨List.cons_ne_nil _ _, ?_⟩
      rw [List.take_succ_cons, lineLength, if_neg hEnd, List.length_cons]
      by_cases hLast : s = []
      · subst hLast
        rfl
      · rw [(ih hLast).2]

theorem isLine_of_mem_lines {file line : List α} (h : line ∈ lines eol file) :
    IsLine eol line := by
  induction file using pieces_induction (lineLength eol) lineLength_pos with
  | nil => cases h
  | piece file hSome ih =>
    rw [lines_cons hSome, List.mem_cons] at h
    rcases h with rfl | h
    · exact isLine_take hSome
    · exact ih h

/-- What is left of a line is one. -/
theorem IsLine.drop {line : List α} (h : IsLine eol line) {n : ℕ} (hSome : line.drop n ≠ []) :
    IsLine eol (line.drop n) := by
  induction line generalizing n with
  | nil => exact absurd List.drop_nil hSome
  | cons c s ih =>
    cases n with
    | zero => exact h
    | succ n =>
      rw [List.drop_succ_cons] at hSome ⊢
      have hLength := h.2
      rw [lineLength, List.length_cons] at hLength
      split_ifs at hLength with hEnd
      · have hNil : s = [] := List.length_eq_zero_iff.mp (by omega)
        rw [hNil, List.drop_nil] at hSome
        exact absurd rfl hSome
      · refine ih ⟨?_, by omega⟩ hSome
        rintro rfl
        exact hSome List.drop_nil

/-- A line with its end, and nothing else. -/
theorem isLine_of_not_mem {text : List α} (h : eol ∉ text) : IsLine eol (text ++ [eol]) := by
  refine ⟨by simp, ?_⟩
  induction text with
  | nil => simp [lineLength]
  | cons c s ih =>
    rw [List.mem_cons, not_or] at h
    rw [List.cons_append, lineLength, if_neg (Ne.symm h.1), ih h.2, List.length_cons]

/-- Complete lines in a row are the lines of the text that they make. -/
theorem lines_flatten {ls : List (List α)} (h : ∀ l ∈ ls, IsLine eol l ∧ Complete eol l) :
    lines eol ls.flatten = ls := by
  induction ls with
  | nil => rfl
  | cons l ls ih =>
    obtain ⟨hLine, hComplete⟩ := h l List.mem_cons_self
    have hSome : l ++ ls.flatten ≠ [] := List.append_ne_nil_of_left_ne_nil hLine.1 _
    rw [List.flatten_cons, lines_cons hSome, lineLength_append hComplete hLine.1, hLine.2,
      List.take_left, List.drop_left, ih fun m hm => h m (List.mem_cons_of_mem _ hm)]

/-! ## Buffers -/

variable {size : ℕ}

theorem fgetsLength_pos (hSize : 1 < size) {file : List α} (h : file ≠ []) :
    0 < fgetsLength eol size file := by
  have hPos : 0 < lineLength eol file := lineLength_pos h
  rw [fgetsLength]
  omega

theorem fgetsLength_le (size : ℕ) (file : List α) : fgetsLength eol size file ≤ file.length :=
  Nat.le_trans (Nat.min_le_right _ _) (lineLength_le file)

theorem fgetsLoop_of_le (hSize : 1 < size) {fuel : ℕ} {file : List α}
    (hFuel : file.length ≤ fuel) : fgetsLoop eol size fuel file = fgetsAll eol size file := by
  have hAny : ∀ n m (file : List α), file.length ≤ n → file.length ≤ m →
      fgetsLoop eol size n file = fgetsLoop eol size m file := by
    intro n
    induction n with
    | zero =>
      intro m file hn _
      obtain rfl := List.length_eq_zero_iff.mp (Nat.le_zero.mp hn)
      cases m with
      | zero => rfl
      | succ m => rfl
    | succ n ih =>
      intro m file hn hm
      cases file with
      | nil =>
        cases m with
        | zero => rfl
        | succ m => rfl
      | cons c s =>
        cases m with
        | zero => exact absurd hm (Nat.not_succ_le_zero _)
        | succ m =>
          have hPos : 0 < fgetsLength eol size (c :: s) :=
            fgetsLength_pos hSize (List.cons_ne_nil c s)
          rw [List.length_cons] at hn hm
          rw [fgetsLoop, fgetsLoop, ih m]
          · rw [List.length_drop, List.length_cons]
            omega
          · rw [List.length_drop, List.length_cons]
            omega
  exact hAny fuel file.length file hFuel (Nat.le_refl _)

@[simp] theorem fgetsAll_nil (size : ℕ) : fgetsAll eol size [] = [] := rfl

/-- One round of the loop. -/
theorem fgetsAll_cons (hSize : 1 < size) {file : List α} (h : file ≠ []) :
    fgetsAll eol size file = file.take (fgetsLength eol size file) ::
      fgetsAll eol size (file.drop (fgetsLength eol size file)) := by
  cases file with
  | nil => exact absurd rfl h
  | cons c s =>
    have hPos : 0 < fgetsLength eol size (c :: s) := fgetsLength_pos hSize h
    rw [fgetsAll, List.length_cons, fgetsLoop, fgetsLoop_of_le hSize]
    rw [List.length_drop, List.length_cons]
    omega

/-- Complete lines are read as if nothing followed. -/
theorem fgetsAll_append (hSize : 1 < size) {file : List α} (h : Complete eol file)
    (rest : List α) :
    fgetsAll eol size (file ++ rest) = fgetsAll eol size file ++ fgetsAll eol size rest := by
  induction file using pieces_induction (fgetsLength eol size) (fgetsLength_pos hSize) with
  | nil => rfl
  | piece file hSome ih =>
    have hLe : fgetsLength eol size file ≤ file.length := fgetsLength_le size file
    have hSame : fgetsLength eol size (file ++ rest) = fgetsLength eol size file := by
      rw [fgetsLength, fgetsLength, lineLength_append h hSome]
    have hBehind := ih (h.drop (fgetsLength eol size file))
    rw [fgetsAll_cons hSize hSome, fgetsAll_cons hSize (by simp [hSome]), hSame,
      List.take_append_of_le_length hLe, List.drop_append_of_le_length hLe, hBehind,
      List.cons_append]

/-- A line comes in pieces, all but the last of them as long as the buffer allows. -/
theorem fgetsAll_line (hSize : 1 < size) {line : List α} (h : IsLine eol line) :
    fgetsAll eol size line =
      line.take (size - 1) :: fgetsAll eol size (line.drop (size - 1)) := by
  rw [fgetsAll_cons hSize h.1, fgetsLength, h.2]
  rcases Nat.le_total (size - 1) line.length with hLong | hShort
  · rw [Nat.min_eq_left hLong]
  · rw [Nat.min_eq_right hShort, List.take_length, List.drop_length,
      List.take_of_length_le hShort, List.drop_eq_nil_of_le hShort]

/-- The pieces of a line begin at the multiples of their length. -/
theorem mem_fgetsAll {line piece : List α} (hSize : 1 < size) (h : IsLine eol line)
    (hMem : piece ∈ fgetsAll eol size line) :
    ∃ k, piece = (line.drop ((size - 1) * k)).take (size - 1) := by
  have hPos : ∀ {file : List α}, file ≠ [] → 0 < size - 1 := fun _ => by omega
  induction line using pieces_induction (fun _ => size - 1) hPos with
  | nil => cases hMem
  | piece line hSome ih =>
    rw [fgetsAll_line hSize h, List.mem_cons] at hMem
    rcases hMem with rfl | hMem
    · exact ⟨0, rfl⟩
    · have hRest : line.drop (size - 1) ≠ [] := by
        intro hNil
        rw [hNil] at hMem
        cases hMem
      obtain ⟨k, rfl⟩ := ih (h.drop hRest) hMem
      refine ⟨k + 1, ?_⟩
      rw [List.drop_drop, Nat.mul_succ, Nat.add_comm]

/-- A line that fits is read at once. -/
theorem fgetsAll_of_fits {line : List α} (h : IsLine eol line) (hFits : line.length < size) :
    fgetsAll eol size line = [line] := by
  have hSome := List.length_pos_iff.mpr h.1
  rw [fgetsAll_line (by omega) h, List.take_of_length_le (by omega),
    List.drop_eq_nil_of_le (by omega), fgetsAll_nil]

/-- The first line is complete, or it is the whole file. -/
theorem complete_take_or (file : List α) : Complete eol (file.take (lineLength eol file)) ∨
    lineLength eol file = file.length := by
  induction file with
  | nil => exact Or.inr rfl
  | cons c s ih =>
    rw [lineLength]
    split_ifs with hEnd
    · exact Or.inl fun d hd => (Option.some.inj hd).symm.trans hEnd
    · by_cases hLast : s = []
      · subst hLast
        exact Or.inr rfl
      · rcases ih with hComplete | hWhole
        · refine Or.inl fun d hd => ?_
          rw [List.take_succ_cons, List.getLast?_cons] at hd
          cases hTake : (s.take (lineLength eol s)).getLast? with
          | none =>
            have hPos : 0 < lineLength eol s := lineLength_pos hLast
            simp [hLast] at hTake
            omega
          | some e =>
            rw [hTake] at hd
            exact (Option.some.inj hd).symm.trans (hComplete e hTake)
        · exact Or.inr (by rw [hWhole, List.length_cons])

theorem fgetsAll_eq_flatMap (hSize : 1 < size) (file : List α) :
    fgetsAll eol size file = (lines eol file).flatMap (fgetsAll eol size) := by
  induction file using pieces_induction (lineLength eol) lineLength_pos with
  | nil => rfl
  | piece file hSome ih =>
    have hEither : Complete eol (file.take (lineLength eol file)) ∨
        lineLength eol file = file.length := complete_take_or file
    rcases hEither with hComplete | hWhole
    · rw [lines_cons hSome, List.flatMap_cons, ← ih, ← fgetsAll_append hSize hComplete,
        List.take_append_drop]
    · rw [lines_of_isLine ⟨hSome, hWhole⟩, List.flatMap_singleton]

end

end DebugCode.Lib
