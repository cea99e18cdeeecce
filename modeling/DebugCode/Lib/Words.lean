import DebugCode.Lib.Numbers

/-!
# What a scan needs of a text

A word and as many `%d` read no more than as many words, and find where each of them ends by
the white space behind it. So what is behind these words does not matter, nor whether it is
there.

* `scan_ints_append`: the numbers.
* `scanWord_append`, `scan_word_ints_append`: a word and numbers behind it.
-/

namespace DebugCode.Lib

/-- What is left of a text behind its first word. -/
def afterWord (s : List UInt8) : List UInt8 :=
  (s.dropWhile isspace).dropWhile fun c => !isspace c

/-- The text goes on behind each of its first `n` words. -/
def HoldsWords : ℕ → List UInt8 → Prop
  | 0, _ => True
  | n + 1, s => afterWord s ≠ [] ∧ HoldsWords n (afterWord s)

theorem dropWhile_append_cons {α : Type*} {p : α → Bool} {b : α} (hb : p b = false)
    (w t : List α) : (w ++ b :: t).dropWhile p = w.dropWhile p ++ b :: t := by
  rw [List.dropWhile_append, List.dropWhile_cons_of_neg (by simp [hb])]
  split_ifs with hAll
  · rw [List.isEmpty_iff.mp hAll, List.nil_append]
  · rfl

theorem takeWhile_append_cons {α : Type*} {p : α → Bool} {b : α} (hb : p b = false)
    (w t : List α) : (w ++ b :: t).takeWhile p = w.takeWhile p := by
  rw [List.takeWhile_append, List.takeWhile_cons_of_neg (by simp [hb]), List.append_nil]
  split_ifs with hAll
  · exact ((List.takeWhile_sublist p).eq_of_length hAll).symm
  · rfl

/-- A word, with the white space in front of it and the first one behind it. -/
theorem exists_word_of_afterWord {s : List UInt8} (h : afterWord s ≠ []) :
    ∃ blanks word b rest, s = blanks ++ (word ++ b :: rest) ∧
      (∀ c ∈ blanks, isspace c = true) ∧ word ≠ [] ∧ (∀ c ∈ word, isspace c = false) ∧
      isspace b = true ∧ afterWord s = b :: rest := by
  obtain ⟨b, rest, hRest⟩ := List.exists_cons_of_ne_nil h
  have hSplit : (s.dropWhile isspace).takeWhile (fun c => !isspace c) ++ b :: rest =
      s.dropWhile isspace := by
    rw [← hRest]
    exact List.takeWhile_append_dropWhile
  have hSpace : isspace b = true := by
    have hHead := List.head?_dropWhile_not (fun c => !isspace c) (s.dropWhile isspace)
    rw [afterWord] at hRest
    simpa [hRest] using hHead
  refine ⟨s.takeWhile isspace, (s.dropWhile isspace).takeWhile fun c => !isspace c, b, rest, ?_,
    fun c hc => List.mem_takeWhile_imp hc, ?_, fun c hc => by simpa using List.mem_takeWhile_imp hc,
    hSpace, hRest⟩
  · rw [hSplit, List.takeWhile_append_dropWhile]
  · intro hNone
    rw [hNone, List.nil_append] at hSplit
    have hHead := List.head?_dropWhile_not isspace s
    rw [← hSplit] at hHead
    simp [hSpace] at hHead

theorem afterWord_append {word : List UInt8} (hSome : word ≠ [])
    (hWord : ∀ c ∈ word, isspace c = false) {b : UInt8} (hSpace : isspace b = true)
    (rest : List UInt8) : afterWord (word ++ b :: rest) = b :: rest := by
  obtain ⟨hStart, -, hDrop⟩ := span_word (List.forall_mem_nil _) hSome hWord hSpace rest
  rw [List.nil_append] at hStart
  rw [afterWord, hStart, hDrop]

theorem HoldsWords.of_succ {n : ℕ} {s : List UInt8} (h : HoldsWords (n + 1) s) :
    HoldsWords n s := by
  induction n generalizing s with
  | zero => exact trivial
  | succ n ih => exact ⟨h.1, ih h.2⟩

theorem HoldsWords.of_le {m n : ℕ} (hLe : m ≤ n) {s : List UInt8} (h : HoldsWords n s) :
    HoldsWords m s := by
  induction n, hLe using Nat.le_induction with
  | base => exact h
  | succ n _ ih => exact ih h.of_succ

/-- The rest of a word in front of a text takes nothing from the words that it holds. -/
theorem HoldsWords.append_word {n : ℕ} {b : UInt8} {rest word : List UInt8}
    (h : HoldsWords n (b :: rest)) (hWord : ∀ c ∈ word, isspace c = false)
    (hSpace : isspace b = true) : HoldsWords n (word ++ b :: rest) := by
  by_cases hSome : word = []
  · rw [hSome]
    exact h
  · cases n with
    | zero => exact trivial
    | succ n =>
      rw [HoldsWords, afterWord_append hSome hWord hSpace]
      exact ⟨List.cons_ne_nil _ _, h.of_succ⟩

/-- A number is read within the word that it begins. -/
theorem scanDigits_word {word : List UInt8} (hSome : word ≠ [])
    (hWord : ∀ c ∈ word, isspace c = false) {b : UInt8} (hSpace : isspace b = true) :
    (∀ t, scanDigits (word ++ b :: t) = none) ∨
      ∃ neg v word', (∀ c ∈ word', isspace c = false) ∧
        ∀ t, scanDigits (word ++ b :: t) = some (neg, v, word' ++ b :: t) := by
  have hDigit : isdigit b = false := not_isdigit_of_isspace hSpace
  obtain ⟨c, w, rfl⟩ := List.exists_cons_of_ne_nil hSome
  have hStart : ∀ t, (c :: w ++ b :: t).dropWhile isspace = c :: w ++ b :: t := fun t =>
    List.dropWhile_cons_of_neg (by simp [hWord c List.mem_cons_self])
  -- behind a sign, if there is one
  obtain ⟨body, hBody, hTail⟩ : ∃ body : List UInt8, (∀ x ∈ body, isspace x = false) ∧
      ∀ t, (if (c :: w ++ b :: t).head? = some 45 ∨ (c :: w ++ b :: t).head? = some 43
        then (c :: w ++ b :: t).tail else c :: w ++ b :: t) = body ++ b :: t := by
    by_cases hSign : c = 45 ∨ c = 43
    · refine ⟨w, fun x hx => hWord x (List.mem_cons_of_mem _ hx), fun t => ?_⟩
      simp [hSign]
    · refine ⟨c :: w, hWord, fun t => ?_⟩
      simp [hSign]
  simp only [scanDigits, hStart, hTail, takeWhile_append_cons hDigit,
    dropWhile_append_cons hDigit]
  cases hDigits : body.takeWhile isdigit with
  | nil => exact Or.inl fun t => rfl
  | cons d ds =>
    refine Or.inr ⟨decide (some c = some 45), digitsValue (d :: ds), body.dropWhile isdigit,
      fun x hx => ?_, fun t => rfl⟩
    exact hBody x ((List.dropWhile_sublist _).subset hx)

theorem scanDigits_blanks {blanks : List UInt8} (hBlanks : ∀ c ∈ blanks, isspace c = true)
    (s : List UInt8) : scanDigits (blanks ++ s) = scanDigits s := by
  rw [← scanDigits_dropWhile, List.dropWhile_append_of_pos hBlanks, scanDigits_dropWhile]

/-- As many `%d` as there are words read nothing behind these. -/
theorem scan_ints_append {n : ℕ} {s : List UInt8} (hWords : HoldsWords n s)
    (more : List UInt8) : scan (ints n) (s ++ more) = scan (ints n) s := by
  induction n generalizing s with
  | zero => rfl
  | succ n ih =>
    have hFormat : ints (n + 1) = .space :: .int true :: ints n := rfl
    obtain ⟨blanks, word, b, rest, rfl, hBlanks, hSome, hWord, hSpace, hAfter⟩ :=
      exists_word_of_afterWord hWords.1
    have hRest : HoldsWords n (b :: rest) := hAfter ▸ hWords.2
    rw [hFormat, scan_space_int, scan_space_int, scan, scan, List.append_assoc,
      List.append_assoc, List.cons_append, scanDigits_blanks hBlanks, scanDigits_blanks hBlanks]
    rcases scanDigits_word hSome hWord hSpace with hNone | ⟨neg, v, word', hWord', hNumber⟩
    · rw [hNone, hNone]
    · have hNext := ih (hRest.append_word hWord' hSpace)
      rw [List.append_assoc, List.cons_append] at hNext
      rw [hNumber, hNumber]
      simp only [if_true, hNext]

/-- The numbers behind a word of which a part is taken. -/
theorem scanWord_append {width : ℕ} (hWidth : 0 < width) {n : ℕ} {s : List UInt8}
    (hWords : HoldsWords (n + 1) s) (more : List UInt8) :
    ∃ w rest, scanWord width s = some (w, rest) ∧
      scanWord width (s ++ more) = some (w, rest ++ more) ∧
      scan (ints n) (rest ++ more) = scan (ints n) rest := by
  obtain ⟨blanks, word, b, rest, rfl, hBlanks, hSome, hWord, hSpace, hAfter⟩ :=
    exists_word_of_afterWord hWords.1
  have hRest : HoldsWords n (b :: rest) := hAfter ▸ hWords.2
  have hScan := scanWord_word hWidth hBlanks hSome hWord hSpace
  refine ⟨word.take width, word.drop width ++ b :: rest, hScan rest, ?_, ?_⟩
  · rw [List.append_assoc, List.append_assoc, List.append_assoc, List.cons_append]
    exact hScan (rest ++ more)
  · exact scan_ints_append (hRest.append_word
      (fun c hc => hWord c (List.mem_of_mem_drop hc)) hSpace) more

theorem scan_word_ints_append {n : ℕ} {s : List UInt8} (hWords : HoldsWords (n + 1) s)
    (more : List UInt8) :
    scan (.word true :: ints n) (s ++ more) = scan (.word true :: ints n) s := by
  obtain ⟨blanks, word, b, rest, rfl, hBlanks, hSome, hWord, hSpace, hAfter⟩ :=
    exists_word_of_afterWord hWords.1
  have hRest : HoldsWords n (b :: rest) := hAfter ▸ hWords.2
  have hScan : ∀ t, scan (.word true :: ints n) (blanks ++ (word ++ b :: t)) =
      .word word :: scan (ints n) (b :: t) := by
    intro t
    obtain ⟨hStart, hTake, hDrop⟩ := span_word hBlanks hSome hWord hSpace t
    rw [scan, hStart, hTake, hDrop]
    obtain ⟨c, w, rfl⟩ := List.exists_cons_of_ne_nil hSome
    rfl
  have hNext := scan_ints_append hRest more
  rw [List.append_assoc, List.append_assoc, List.cons_append, hScan, hScan, ← List.cons_append,
    hNext]

end DebugCode.Lib
