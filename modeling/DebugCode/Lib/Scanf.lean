import DebugCode.Lib.CString

/-!
# `sscanf`

The directives `%d`, `%u` and `%s`, white space and literal characters of a `scanf` format.
A directive skips white space first where C says so; the scan stops at the first directive
that does not match. A directive with `*` matches without assigning.

* `scanDigits_signedDecimal`, `scan_skip_ints`: printed numbers are read back, and skipped.
* `scan_ints_eq_nil`: a row of numbers is not found in a text that is too short for it and
  ends in a character no number goes past.
-/

namespace DebugCode.Lib

inductive Directive : Type
  /-- White space in the format: any amount of white space, also none. -/
  | space
  /-- Any other character stands for itself. -/
  | lit (c : UInt8)
  /-- `%d`, or `%*d`. -/
  | int (assign : Bool)
  /-- `%u`, or `%*u`. -/
  | uint (assign : Bool)
  /-- `%s`, or `%*s`. -/
  | word (assign : Bool)

/-- What a directive assigns: a `long`, an `unsigned long` or the characters of a word. -/
inductive Assigned : Type
  | int (v : Int)
  | uint (v : Nat)
  | word (w : List UInt8)
deriving DecidableEq

/-- White space, a sign and at least one digit: the sign, the magnitude and the rest. -/
def scanDigits (s : List UInt8) : Option (Bool × Nat × List UInt8) :=
  let s := s.dropWhile isspace
  let neg := s.head? = some 45
  let s := if s.head? = some 45 ∨ s.head? = some 43 then s.tail else s
  match s.takeWhile isdigit with
  | [] => none
  | d :: ds => some (neg, digitsValue (d :: ds), s.dropWhile isdigit)

/-- `strtol` clamps to the range of a 64-bit `long`. -/
def clampLong (neg : Bool) (v : Nat) : Int :=
  if neg then max (-(v : Int)) (-2 ^ 63) else min (v : Int) (2 ^ 63 - 1)

/-- `strtoul` clamps to `ULONG_MAX` and negates modulo `2 ^ 64`. -/
def clampUlong (neg : Bool) (v : Nat) : Nat :=
  if 2 ^ 64 ≤ v then 2 ^ 64 - 1 else if neg then (2 ^ 64 - v) % 2 ^ 64 else v

/-- The values assigned, in order; `sscanf` returns their number. -/
def scan : List Directive → List UInt8 → List Assigned
  | [], _ => []
  | .space :: ds, s => scan ds (s.dropWhile isspace)
  | .lit c :: ds, s => if s.head? = some c then scan ds s.tail else []
  | .int assign :: ds, s =>
    match scanDigits s with
    | none => []
    | some (neg, v, rest) =>
      if assign then .int (clampLong neg v) :: scan ds rest else scan ds rest
  | .uint assign :: ds, s =>
    match scanDigits s with
    | none => []
    | some (neg, v, rest) =>
      if assign then .uint (clampUlong neg v) :: scan ds rest else scan ds rest
  | .word assign :: ds, s =>
    match (s.dropWhile isspace).takeWhile (fun c => !isspace c) with
    | [] => []
    | c :: w =>
      let rest := (s.dropWhile isspace).dropWhile (fun c => !isspace c)
      if assign then .word (c :: w) :: scan ds rest else scan ds rest

/-- `sscanf` on a buffer reads up to its first `NUL`. -/
def sscanf (buffer : List UInt8) (format : List Directive) : List Assigned :=
  scan format (CString.ofBuffer buffer).bytes

/-- `%d` of `printf`. -/
def signedDecimal (v : Int) : List UInt8 :=
  if v < 0 then 45 :: decimal v.natAbs else decimal v.natAbs

/-! ## Numbers -/

theorem not_isspace_of_isdigit {c : UInt8} (hc : isdigit c = true) : isspace c = false := by
  simp only [isdigit, isspace, Bool.and_eq_true, decide_eq_true_eq, Bool.or_eq_false_iff,
    Bool.and_eq_false_iff, decide_eq_false_iff_not] at *
  grind

theorem not_isdigit_of_isspace {c : UInt8} (hc : isspace c = true) : isdigit c = false := by
  by_contra hDigit
  rw [not_isspace_of_isdigit (Bool.not_eq_false _ ▸ hDigit)] at hc
  cases hc

theorem not_sign_of_isdigit {c : UInt8} (hc : isdigit c = true) : c ≠ 45 ∧ c ≠ 43 := by
  simp only [isdigit, Bool.and_eq_true, decide_eq_true_eq] at hc
  grind

theorem clampUlong_of_lt {v : Nat} (hv : v < 2 ^ 64) : clampUlong false v = v := by
  rw [clampUlong, if_neg (by omega)]
  rfl

theorem dropWhile_of_head {p : UInt8 → Bool} {s : List UInt8} (hHead : s.head?.any p = false) :
    s.dropWhile p = s := by
  cases s with
  | nil => rfl
  | cons c s => exact List.dropWhile_cons_of_neg (by simpa using hHead)

/-- A number takes its leading white space itself. -/
theorem scanDigits_dropWhile (s : List UInt8) :
    scanDigits (s.dropWhile isspace) = scanDigits s := by
  have hTwice : (s.dropWhile isspace).dropWhile isspace = s.dropWhile isspace := by
    apply dropWhile_of_head
    have hHead := List.head?_dropWhile_not isspace s
    cases h : (s.dropWhile isspace).head? with
    | none => rfl
    | some c => simpa [h] using hHead
  rw [scanDigits, hTwice]
  rfl

theorem scan_space_int (assign : Bool) (ds : List Directive) (s : List UInt8) :
    scan (.space :: .int assign :: ds) s = scan (.int assign :: ds) s := by
  rw [scan, scan, scan, scanDigits_dropWhile]

theorem scan_space_uint (assign : Bool) (ds : List Directive) (s : List UInt8) :
    scan (.space :: .uint assign :: ds) s = scan (.uint assign :: ds) s := by
  rw [scan, scan, scan, scanDigits_dropWhile]

section

variable {rest : List UInt8} (hEnd : rest.head?.any isdigit = false)

include hEnd

/-- A run of digits ends where no digit follows. -/
theorem span_digits {ds : List UInt8} (hDigits : ∀ d ∈ ds, isdigit d = true) :
    (ds ++ rest).takeWhile isdigit = ds ∧ (ds ++ rest).dropWhile isdigit = rest := by
  have hNone : rest.takeWhile isdigit = [] := by
    cases rest with
    | nil => rfl
    | cons c rest => exact List.takeWhile_cons_of_neg (by simpa using hEnd)
  rw [List.takeWhile_append_of_pos hDigits, List.dropWhile_append_of_pos hDigits, hNone,
    dropWhile_of_head hEnd, List.append_nil]
  exact ⟨rfl, rfl⟩

/-- What `%u` prints is read back. -/
theorem scanDigits_decimal (v : Nat) : scanDigits (decimal v ++ rest) = some (false, v, rest) := by
  obtain ⟨c, cs, hDecimal, hc⟩ := decimal_head v
  obtain ⟨hTake, hDrop⟩ := span_digits hEnd (decimal_isdigit v)
  have hSpaces : (decimal v ++ rest).dropWhile isspace = decimal v ++ rest := by
    apply dropWhile_of_head
    rw [hDecimal]
    exact not_isspace_of_isdigit hc
  have hHead : (decimal v ++ rest).head? = some c := by rw [hDecimal]; rfl
  have hSign := not_sign_of_isdigit hc
  have hValue := digitsValue_decimal v
  simp only [scanDigits, hSpaces, hHead, Option.some.injEq, hSign.1, hSign.2, or_self, if_false,
    hTake, hDrop, decide_false]
  rw [hDecimal] at hValue ⊢
  simp only [hValue]

/-- What `%d` prints is read back. -/
theorem scanDigits_signedDecimal (v : Int) :
    scanDigits (signedDecimal v ++ rest) = some (decide (v < 0), v.natAbs, rest) := by
  rw [signedDecimal]
  split_ifs with hNeg
  · obtain ⟨hTake, hDrop⟩ := span_digits hEnd (decimal_isdigit v.natAbs)
    obtain ⟨c, cs, hDecimal, -⟩ := decimal_head v.natAbs
    have hValue := digitsValue_decimal v.natAbs
    have hSpaces : (45 :: (decimal v.natAbs ++ rest)).dropWhile isspace =
        45 :: (decimal v.natAbs ++ rest) := rfl
    rw [List.cons_append, scanDigits, hSpaces]
    simp only [List.head?_cons, true_or, if_true, List.tail_cons, hTake, hDrop, hNeg,
      decide_true]
    rw [hDecimal] at hValue ⊢
    simp only [hValue]
  · rw [scanDigits_decimal hEnd]
    simp [hNeg]

/-- A row of numbers is skipped by as many `%*d`. -/
theorem scan_skip_ints (vs : List Int) (ds : List Directive) :
    scan ((List.replicate vs.length [.space, .int false]).flatten ++ ds)
      (vs.flatMap (fun v => 32 :: signedDecimal v) ++ rest) = scan ds rest := by
  induction vs with
  | nil => rfl
  | cons v vs ih =>
    have hNext : (vs.flatMap (fun v => 32 :: signedDecimal v) ++ rest).head?.any isdigit =
        false := by
      cases vs with
      | nil => exact hEnd
      | cons v vs => rfl
    have hNumber : scanDigits (32 :: (signedDecimal v ++
        (vs.flatMap (fun v => 32 :: signedDecimal v) ++ rest))) =
          some (decide (v < 0), v.natAbs, vs.flatMap (fun v => 32 :: signedDecimal v) ++ rest) := by
      rw [← scanDigits_dropWhile, List.dropWhile_cons_of_pos rfl, scanDigits_dropWhile,
        scanDigits_signedDecimal hNext]
    have hText : (v :: vs).flatMap (fun v => 32 :: signedDecimal v) ++ rest =
        32 :: (signedDecimal v ++ (vs.flatMap (fun v => 32 :: signedDecimal v) ++ rest)) := by
      simp
    have hFormat : (List.replicate (v :: vs).length [.space, .int false]).flatten ++ ds =
        .space :: .int false ::
          ((List.replicate vs.length [.space, .int false]).flatten ++ ds) := rfl
    rw [hText, hFormat, scan_space_int, scan, hNumber]
    exact ih

end

/-! ## Words -/

/-- `%s` on a word that white space follows. -/
theorem scan_word {w : List UInt8} (hWord : ∀ c ∈ w, isspace c = false) (hNonempty : w ≠ [])
    {b : UInt8} (hb : isspace b = true) (assign : Bool) (ds : List Directive) (s : List UInt8) :
    scan (.word assign :: ds) (w ++ b :: s) =
      if assign then .word w :: scan ds (b :: s) else scan ds (b :: s) := by
  obtain ⟨c, w, rfl⟩ := List.exists_cons_of_ne_nil hNonempty
  have hKeep : ∀ x ∈ c :: w, (!isspace x) = true := fun x hx => by simp [hWord x hx]
  have hStart : (c :: w ++ b :: s).dropWhile isspace = c :: w ++ b :: s :=
    List.dropWhile_cons_of_neg (by simp [hWord c List.mem_cons_self])
  have hTake : (c :: w ++ b :: s).takeWhile (fun c => !isspace c) = c :: w := by
    rw [List.takeWhile_append_of_pos hKeep, List.takeWhile_cons_of_neg (by simp [hb]),
      List.append_nil]
  have hDrop : (c :: w ++ b :: s).dropWhile (fun c => !isspace c) = b :: s := by
    rw [List.dropWhile_append_of_pos hKeep, List.dropWhile_cons_of_neg (by simp [hb])]
  rw [scan, hStart, hTake, hDrop]

/-! ## Characters no number goes past -/

/-- A character that is no part of a number and not skipped in front of one. -/
structure Barrier (c : UInt8) : Prop where
  not_space : isspace c = false
  not_digit : isdigit c = false
  not_sign : c ≠ 45 ∧ c ≠ 43

theorem dropWhile_barrier {p : UInt8 → Bool} {c : UInt8} (hc : p c = false) (u t : List UInt8) :
    (u ++ c :: t).dropWhile p = u.dropWhile p ++ c :: t := by
  induction u with
  | nil => exact List.dropWhile_cons_of_neg (by simp [hc])
  | cons a u ih =>
    cases ha : p a with
    | true =>
      rw [List.cons_append, List.dropWhile_cons_of_pos ha, ih, List.dropWhile_cons_of_pos ha]
    | false => simp [ha]

theorem takeWhile_barrier {p : UInt8 → Bool} {c : UInt8} (hc : p c = false) (u t : List UInt8) :
    (u ++ c :: t).takeWhile p = u.takeWhile p := by
  induction u with
  | nil => exact List.takeWhile_cons_of_neg (by simp [hc])
  | cons a u ih =>
    cases ha : p a with
    | true =>
      rw [List.cons_append, List.takeWhile_cons_of_pos ha, ih, List.takeWhile_cons_of_pos ha]
    | false => simp [ha]

/-- A number in front of a barrier is read as if the text ended there. -/
theorem scanDigits_barrier {c : UInt8} (hc : Barrier c) (u t : List UInt8) :
    scanDigits (u ++ c :: t) =
      (scanDigits u).map fun (neg, v, rest) => (neg, v, rest ++ c :: t) := by
  have hSpaces := dropWhile_barrier hc.not_space u t
  simp only [scanDigits, hSpaces]
  cases hStart : u.dropWhile isspace with
  | nil => simp [hc.not_sign.1, hc.not_sign.2, hc.not_digit]
  | cons a w =>
    by_cases hSign : a = 45 ∨ a = 43
    · simp only [List.cons_append, List.head?_cons, Option.some.injEq, hSign, if_true,
        List.tail_cons, takeWhile_barrier hc.not_digit, dropWhile_barrier hc.not_digit]
      cases w.takeWhile isdigit with
      | nil => rfl
      | cons d ds => rfl
    · have hTake := takeWhile_barrier hc.not_digit (a :: w) t
      have hDrop := dropWhile_barrier hc.not_digit (a :: w) t
      rw [List.cons_append] at hTake hDrop
      simp only [List.cons_append, List.head?_cons, Option.some.injEq, hSign, if_false, hTake,
        hDrop]
      cases (a :: w).takeWhile isdigit with
      | nil => rfl
      | cons d ds => rfl

/-- What is left behind a run of digits. -/
theorem dropWhile_isdigit {w : List UInt8} {d : UInt8} {ds : List UInt8}
    (hDigits : w.takeWhile isdigit = d :: ds) :
    (w.dropWhile isdigit).length + 1 ≤ w.length ∧
      (w.dropWhile isdigit).head?.any isdigit = false := by
  have hSplit := congrArg List.length (List.takeWhile_append_dropWhile (p := isdigit) (l := w))
  rw [List.length_append, hDigits, List.length_cons] at hSplit
  have hHead := List.head?_dropWhile_not isdigit w
  refine ⟨by omega, ?_⟩
  cases h : (w.dropWhile isdigit).head? with
  | none => rfl
  | some c => simpa [h] using hHead

/-- A number takes two characters at least where no digit comes first, and leaves no digit. -/
theorem scanDigits_shorter {u : List UInt8} {neg : Bool} {v : Nat} {rest : List UInt8}
    (hScan : scanDigits u = some (neg, v, rest)) (hHead : u.head?.any isdigit = false) :
    rest.length + 2 ≤ u.length ∧ rest.head?.any isdigit = false := by
  have hSkip := List.length_dropWhile_le isspace u
  rw [scanDigits] at hScan
  by_cases hSign : (u.dropWhile isspace).head? = some 45 ∨ (u.dropWhile isspace).head? = some 43
  · simp only [hSign, if_true] at hScan
    cases hDigits : (u.dropWhile isspace).tail.takeWhile isdigit with
    | nil => simp [hDigits] at hScan
    | cons d ds =>
      obtain ⟨hLength, hEnd⟩ := dropWhile_isdigit hDigits
      rw [List.length_tail] at hLength
      simp only [hDigits, Option.some.injEq, Prod.mk.injEq] at hScan
      obtain ⟨-, -, rfl⟩ := hScan
      exact ⟨by omega, hEnd⟩
  · simp only [hSign, if_false] at hScan
    cases hDigits : (u.dropWhile isspace).takeWhile isdigit with
    | nil => simp [hDigits] at hScan
    | cons d ds =>
      obtain ⟨hLength, hEnd⟩ := dropWhile_isdigit hDigits
      simp only [hDigits, Option.some.injEq, Prod.mk.injEq] at hScan
      obtain ⟨-, -, rfl⟩ := hScan
      refine ⟨?_, hEnd⟩
      cases u with
      | nil => cases hDigits
      | cons a u =>
        cases hSpace : isspace a with
        | true =>
          -- the white space is the second character
          rw [List.dropWhile_cons_of_pos hSpace] at hLength ⊢
          have hSkipTail := List.length_dropWhile_le isspace u
          rw [List.length_cons]
          omega
        | false =>
          have ha : isdigit a = false := hHead
          simp [hSpace, ha] at hDigits

/-- Numbers that cannot go past a barrier need more text in front of it than there is. -/
theorem scan_ints_eq_nil {c : UInt8} (hc : Barrier c) {n : Nat} {u : List UInt8}
    (hHead : u.head?.any isdigit = false) (hShort : u.length < 2 * n) (t : List UInt8)
    (ds : List Directive) :
    scan ((List.replicate n [.space, .int false]).flatten ++ ds) (u ++ c :: t) = [] := by
  induction n generalizing u with
  | zero => omega
  | succ n ih =>
    have hFormat : (List.replicate (n + 1) [.space, .int false]).flatten ++ ds =
        .space :: .int false :: ((List.replicate n [.space, .int false]).flatten ++ ds) := rfl
    rw [hFormat, scan_space_int, scan, scanDigits_barrier hc]
    cases hScan : scanDigits u with
    | none => rfl
    | some found =>
      obtain ⟨neg, v, rest⟩ := found
      obtain ⟨hLength, hEnd⟩ := scanDigits_shorter hScan hHead
      exact ih hEnd (by omega)

end DebugCode.Lib
