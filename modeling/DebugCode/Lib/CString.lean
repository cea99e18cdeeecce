import Mathlib.Data.List.TakeWhile
import Mathlib.Data.Nat.Digits.Defs
import Mathlib.Tactic.Common

/-!
# C strings

A C string is the list of its bytes in front of the terminating `NUL`, so it holds no zero
byte. The functions of the C library that the programs use on strings are given here by
their loops, with what they compute:

* `strcmp_eq_zero_iff` and `strncmp_eq_zero_iff`: equality and equality of prefixes.
* `atoi_decimal`: a number below `2 ^ 31` printed in decimal is read back.
-/

namespace DebugCode.Lib

/-- The bytes of an ASCII text. -/
def ascii (s : String) : List UInt8 := s.toList.map fun c => UInt8.ofNat c.toNat

/-- A C string, without its terminator. -/
structure CString where
  bytes : List UInt8
  nul_free : 0 ∉ bytes
deriving DecidableEq

namespace CString

@[ext] theorem ext {s t : CString} (h : s.bytes = t.bytes) : s = t := by
  cases s
  cases t
  congr

def strlen (s : CString) : Nat := s.bytes.length

/-- The string a buffer holds: its bytes in front of the first `NUL`. -/
def ofBuffer (buffer : List UInt8) : CString where
  bytes := buffer.takeWhile (· ≠ 0)
  nul_free h := by simpa using List.mem_takeWhile_imp h

/-- A string literal. -/
def literal (s : String) : CString := ofBuffer (ascii s)

def append (s t : CString) : CString where
  bytes := s.bytes ++ t.bytes
  nul_free h := (List.mem_append.mp h).elim s.nul_free t.nul_free

instance : Append CString := ⟨append⟩

def take (n : Nat) (s : CString) : CString where
  bytes := s.bytes.take n
  nul_free h := s.nul_free (List.mem_of_mem_take h)

@[simp] theorem bytes_append (s t : CString) : (s ++ t).bytes = s.bytes ++ t.bytes := rfl

@[simp] theorem bytes_take (n : Nat) (s : CString) : (s.take n).bytes = s.bytes.take n := rfl

theorem append_assoc (s t u : CString) : s ++ t ++ u = s ++ (t ++ u) :=
  ext (List.append_assoc s.bytes t.bytes u.bytes)

theorem append_right_cancel {s t u : CString} (h : s ++ u = t ++ u) : s = t :=
  ext (List.append_cancel_right (congrArg bytes h))

theorem ofBuffer_bytes (s : CString) : ofBuffer s.bytes = s := by
  apply ext
  apply List.takeWhile_eq_self_iff.mpr
  intro b hb
  have hNe : b ≠ 0 := fun hZero => s.nul_free (hZero ▸ hb)
  simpa using hNe

end CString

/-! ## Comparison and copying -/

/-- The difference of the first unequal bytes, as `unsigned char`; the terminator is `0`. -/
def strcmpBytes : List UInt8 → List UInt8 → Int
  | [], [] => 0
  | [], b :: _ => -b.toNat
  | a :: _, [] => a.toNat
  | a :: s, b :: t => if a = b then strcmpBytes s t else a.toNat - b.toNat

def strcmp (s t : CString) : Int := strcmpBytes s.bytes t.bytes

/-- `strcmp` on at most `n` bytes. -/
def strncmp (s t : CString) (n : Nat) : Int := strcmpBytes (s.bytes.take n) (t.bytes.take n)

theorem strcmpBytes_eq_zero_iff {s t : List UInt8} (hs : 0 ∉ s) (ht : 0 ∉ t) :
    strcmpBytes s t = 0 ↔ s = t := by
  induction s generalizing t with
  | nil =>
    cases t with
    | nil => simp [strcmpBytes]
    | cons b t =>
      have hb : b ≠ 0 := fun h => ht (h ▸ List.mem_cons_self)
      have hNat : b.toNat ≠ 0 := fun h => hb (UInt8.toNat.inj h)
      simp only [strcmpBytes, reduceCtorEq, iff_false]
      omega
  | cons a s ih =>
    cases t with
    | nil =>
      have ha : a ≠ 0 := fun h => hs (h ▸ List.mem_cons_self)
      have hNat : a.toNat ≠ 0 := fun h => ha (UInt8.toNat.inj h)
      simp only [strcmpBytes, reduceCtorEq, iff_false]
      omega
    | cons b t =>
      by_cases hab : a = b
      · subst hab
        simp only [strcmpBytes, if_true, List.cons.injEq, true_and]
        exact ih (fun h => hs (List.mem_cons_of_mem _ h)) (fun h => ht (List.mem_cons_of_mem _ h))
      · have hNat : a.toNat ≠ b.toNat := fun h => hab (UInt8.toNat.inj h)
        simp only [strcmpBytes, hab, if_false, List.cons.injEq, false_and, iff_false]
        omega

theorem strcmp_eq_zero_iff (s t : CString) : strcmp s t = 0 ↔ s = t := by
  rw [strcmp, strcmpBytes_eq_zero_iff s.nul_free t.nul_free]
  exact ⟨CString.ext, congrArg CString.bytes⟩

theorem strncmp_eq_zero_iff (s t : CString) (n : Nat) :
    strncmp s t n = 0 ↔ s.bytes.take n = t.bytes.take n :=
  strcmpBytes_eq_zero_iff (s.take n).nul_free (t.take n).nul_free

theorem strncmp_append (s t : CString) : strncmp (s ++ t) s s.strlen = 0 := by
  rw [strncmp_eq_zero_iff, CString.bytes_append]
  unfold CString.strlen
  rw [List.take_left, List.take_length]

/-- The `n` bytes `strncpy` writes: the string cut to `n` bytes, padded with `NUL`. -/
def strncpy (src : CString) (n : Nat) : List UInt8 :=
  src.bytes.take n ++ List.replicate (n - src.strlen) 0

@[simp] theorem strncpy_length (src : CString) (n : Nat) : (strncpy src n).length = n := by
  simp only [strncpy, CString.strlen, List.length_append, List.length_take, List.length_replicate]
  omega

/-- Behind the end of the string there are zero bytes. -/
theorem strncpy_getElem? (src : CString) {n i : Nat} (hi : i < n) :
    (strncpy src n)[i]? = some (src.bytes.getD i 0) := by
  rw [strncpy, List.getD_eq_getElem?_getD]
  by_cases hs : i < src.bytes.length
  · rw [List.getElem?_append_left (by rw [List.length_take]; omega), List.getElem?_take_of_lt hi,
      List.getElem?_eq_getElem hs]
    rfl
  · have hTake : (src.bytes.take n).length = src.bytes.length := by
      rw [List.length_take]
      omega
    rw [List.getElem?_append_right (by omega), hTake,
      List.getElem?_eq_none (l := src.bytes) (by omega),
      List.getElem?_replicate_of_lt (by unfold CString.strlen; omega)]
    rfl

/-- A string that fits is found in the buffer again. -/
theorem CString.ofBuffer_strncpy {src : CString} {n : Nat} (hFits : src.strlen < n) :
    ofBuffer (strncpy src n) = src := by
  have hKeep : ∀ b ∈ src.bytes, decide (b ≠ 0) = true := by
    intro b hb
    have hNe : b ≠ 0 := fun hZero => src.nul_free (hZero ▸ hb)
    simpa using hNe
  obtain ⟨k, hk⟩ : ∃ k, n - src.strlen = k + 1 := ⟨n - src.strlen - 1, by omega⟩
  apply CString.ext
  show (strncpy src n).takeWhile (fun b => decide (b ≠ 0)) = src.bytes
  rw [strncpy, hk, List.take_of_length_le (Nat.le_of_lt hFits), List.replicate_succ,
    List.takeWhile_append_of_pos hKeep]
  simp

/-- `snprintf` into `size` bytes keeps `size - 1` bytes of the text. -/
def snprintf (size : Nat) (text : CString) : CString := text.take (size - 1)

theorem snprintf_of_fits {size : Nat} {text : CString} (h : text.strlen < size) :
    snprintf size text = text := by
  apply CString.ext
  unfold CString.strlen at h
  exact List.take_of_length_le (show text.bytes.length ≤ size - 1 by omega)

/-! ## Numbers in text -/

def isdigit (c : UInt8) : Bool := 48 ≤ c && c ≤ 57

def isspace (c : UInt8) : Bool := c = 32 || (9 ≤ c && c ≤ 13)

/-- The value of a run of decimal digits. -/
def digitsValue (ds : List UInt8) : Nat := ds.foldl (fun acc d => 10 * acc + (d.toNat - 48)) 0

/-- `strtol` in base ten, `long` being 64 bits wide: white space, a sign and digits; the
value is clamped to the range of `long`. -/
def strtol (s : List UInt8) : Int :=
  let s := s.dropWhile isspace
  let neg := s.head? = some 45
  let s := if s.head? = some 45 ∨ s.head? = some 43 then s.tail else s
  let value := digitsValue (s.takeWhile isdigit)
  if neg then max (-(value : Int)) (-2 ^ 63) else min (value : Int) (2 ^ 63 - 1)

/-- `atoi` is `(int) strtol`. -/
def atoi (s : List UInt8) : Int := (strtol s).bmod (2 ^ 32)

/-- `%u`: the decimal digits of a number. -/
def decimal (v : Nat) : List UInt8 :=
  if v = 0 then [48] else ((Nat.digits 10 v).reverse.map fun d => UInt8.ofNat (48 + d))

theorem digitsValue_map {ds : List Nat} (hDigits : ∀ d ∈ ds, d < 10) :
    digitsValue (ds.reverse.map fun d => UInt8.ofNat (48 + d)) = Nat.ofDigits 10 ds := by
  rw [digitsValue, List.foldl_map, List.foldl_reverse]
  induction ds with
  | nil => rfl
  | cons d ds ih =>
    have hd := hDigits d List.mem_cons_self
    have hByte : (UInt8.ofNat (48 + d)).toNat = 48 + d := by
      rw [UInt8.toNat_ofNat']
      omega
    rw [List.foldr_cons, ih fun e he => hDigits e (List.mem_cons_of_mem _ he), hByte,
      Nat.ofDigits_cons]
    omega

theorem decimal_isdigit (v : Nat) : ∀ c ∈ decimal v, isdigit c = true := by
  intro c hc
  unfold decimal at hc
  split at hc
  · simp only [List.mem_singleton] at hc
    subst hc
    decide
  · obtain ⟨d, hd, rfl⟩ := List.mem_map.mp hc
    have hTen : ∀ d < 10, isdigit (UInt8.ofNat (48 + d)) = true := by decide
    exact hTen d (Nat.digits_lt_base (by decide) (List.mem_reverse.mp hd))

theorem decimal_ne_nil (v : Nat) : decimal v ≠ [] := by
  unfold decimal
  split
  · simp
  · rename_i hv
    simpa [Nat.digits_ne_nil_iff_ne_zero] using hv

theorem digitsValue_decimal (v : Nat) : digitsValue (decimal v) = v := by
  unfold decimal
  split
  · rename_i hv
    subst hv
    rfl
  · rw [digitsValue_map fun d hd => Nat.digits_lt_base (by decide) hd, Nat.ofDigits_digits]

/-- The first character of a decimal number. -/
theorem decimal_head (v : Nat) : ∃ c rest, decimal v = c :: rest ∧ isdigit c = true := by
  obtain ⟨c, rest, h⟩ := List.exists_cons_of_ne_nil (decimal_ne_nil v)
  exact ⟨c, rest, h, decimal_isdigit v c (by simp [h])⟩

theorem strtol_of_digits {ds : List UInt8} (hDigits : ∀ c ∈ ds, isdigit c = true) :
    strtol ds = min (digitsValue ds : Int) (2 ^ 63 - 1) := by
  have hFirst : ∀ c, ds.head? = some c → isspace c = false ∧ c ≠ 45 ∧ c ≠ 43 := by
    intro c hc
    have hDigit := hDigits c (List.mem_of_head? hc)
    simp only [isdigit, Bool.and_eq_true, decide_eq_true_eq] at hDigit
    refine ⟨?_, ?_, ?_⟩
    · simp only [isspace, Bool.or_eq_false_iff, decide_eq_false_iff_not, Bool.and_eq_false_iff]
      grind
    · grind
    · grind
  have hSpace : ds.dropWhile isspace = ds := by
    cases ds with
    | nil => rfl
    | cons c ds => rw [List.dropWhile_cons, (hFirst c rfl).1]; rfl
  have hNeg : ds.head? ≠ some 45 := fun h => (hFirst 45 h).2.1 rfl
  have hPos : ds.head? ≠ some 43 := fun h => (hFirst 43 h).2.2 rfl
  have hAll : ds.takeWhile isdigit = ds := List.takeWhile_eq_self_iff.mpr hDigits
  simp only [strtol, hSpace, hNeg, hPos, or_self, if_false, hAll]

theorem atoi_decimal {v : Nat} (h : v < 2 ^ 31) : atoi (decimal v) = v := by
  rw [atoi, strtol_of_digits (decimal_isdigit v), digitsValue_decimal,
    Int.min_eq_left (by omega)]
  exact Int.bmod_eq_of_le (by omega) (by omega)

/-- `%4u` and the like: padded with blanks on the left. -/
def padLeft (width : Nat) (s : List UInt8) : List UInt8 :=
  List.replicate (width - s.length) 32 ++ s

/-- A digit of `%x`. -/
def hexDigit (v : Nat) : UInt8 := if v < 10 then UInt8.ofNat (48 + v) else UInt8.ofNat (87 + v)

/-- `%02x` -/
def hex2 (b : UInt8) : List UInt8 := [hexDigit (b.toNat / 16), hexDigit (b.toNat % 16)]

end DebugCode.Lib
