import DebugCode.Lib.Scanf

/-!
# `%hhx`

The conversion `%<width>hhx` of `sscanf`: white space, which does not count, then a sign, a
`0x` and hexadecimal digits, which do. A `0x` that no digit follows is no number in C, but
some libraries read it as zero; `bareZero` says whether this one does.

* `scanHex_two_iff`: which texts `%2hhx` takes, as a grammar.
* `scanBytes_length_iff`: so which texts a format of such conversions takes whole.
* `scanBytes_printBytes`: what `%02x` prints is read back.
-/

namespace DebugCode.Lib

def isxdigit (c : UInt8) : Bool := isdigit c || (97 ≤ c && c ≤ 102) || (65 ≤ c && c ≤ 70)

def hexValue (c : UInt8) : Nat :=
  if isdigit c then c.toNat - 48 else if c ≤ 70 then c.toNat - 55 else c.toNat - 87

/-- The value of a run of hexadecimal digits. -/
def hexDigitsValue (ds : List UInt8) : Nat := ds.foldl (fun acc d => 16 * acc + hexValue d) 0

/-- The letter of `0x`. -/
def isX (c : UInt8) : Bool := c = 120 || c = 88

/-- At least one digit, and at most `width`. -/
def scanHexDigits (width : Nat) (s : List UInt8) : Option (Nat × List UInt8) :=
  match (s.take width).takeWhile isxdigit with
  | [] => none
  | d :: ds => some (hexDigitsValue (d :: ds), s.drop (ds.length + 1))

/-- Digits behind a sign, with or without `0x`. -/
def scanHexMagnitude (bareZero : Bool) (width : Nat) (s : List UInt8) :
    Option (Nat × List UInt8) :=
  if 2 ≤ width ∧ s.head? = some 48 ∧ (s.tail.head?.any isX = true) then
    match scanHexDigits (width - 2) (s.drop 2) with
    | none => if bareZero then some (0, s.drop 2) else none
    | some found => some found
  else scanHexDigits width s

/-- One conversion: the byte stored and the rest of the text. -/
def scanHex (bareZero : Bool) (width : Nat) (s : List UInt8) : Option (UInt8 × List UInt8) :=
  let s := s.dropWhile isspace
  let neg := s.head? = some 45
  let found := if s.head? = some 45 ∨ s.head? = some 43
    then scanHexMagnitude bareZero (width - 1) s.tail else scanHexMagnitude bareZero width s
  found.map fun (v, rest) => (UInt8.ofNat (clampUlong neg v), rest)

/-- A format of `%<width>hhx` conversions and characters that stand for themselves. -/
inductive HexDirective : Type
  | hex (width : Nat)
  | lit (c : UInt8)

/-- The bytes assigned, in order. -/
def scanBytes (bareZero : Bool) : List HexDirective → List UInt8 → List UInt8
  | [], _ => []
  | .lit c :: ds, s => if s.head? = some c then scanBytes bareZero ds s.tail else []
  | .hex width :: ds, s =>
    match scanHex bareZero width s with
    | none => []
    | some (v, rest) => v :: scanBytes bareZero ds rest

/-! ## Characters -/

theorem not_isspace_of_isxdigit {c : UInt8} (hc : isxdigit c = true) : isspace c = false := by
  simp only [isxdigit, isdigit, isspace, Bool.or_eq_true, Bool.and_eq_true,
    decide_eq_true_eq, Bool.or_eq_false_iff, Bool.and_eq_false_iff, decide_eq_false_iff_not] at *
  grind

theorem not_sign_of_isxdigit {c : UInt8} (hc : isxdigit c = true) : c ≠ 45 ∧ c ≠ 43 := by
  simp only [isxdigit, isdigit, Bool.or_eq_true, Bool.and_eq_true, decide_eq_true_eq] at hc
  grind

theorem not_isX_of_isxdigit {c : UInt8} (hc : isxdigit c = true) : isX c = false := by
  simp only [isxdigit, isdigit, isX, Bool.or_eq_true, Bool.and_eq_true,
    decide_eq_true_eq, Bool.or_eq_false_iff, decide_eq_false_iff_not] at *
  grind

theorem isxdigit_hexDigit {v : Nat} (hv : v < 16) : isxdigit (hexDigit v) = true := by
  have hAll : ∀ v < 16, isxdigit (hexDigit v) = true := by decide
  exact hAll v hv

theorem hexValue_hexDigit {v : Nat} (hv : v < 16) : hexValue (hexDigit v) = v := by
  have hAll : ∀ v < 16, hexValue (hexDigit v) = v := by decide
  exact hAll v hv

/-- Leading white space is skipped. -/
theorem dropWhile_isspace_append {ws : List UInt8} (hSpace : ∀ c ∈ ws, isspace c = true)
    {c : UInt8} (hc : isspace c = false) (s : List UInt8) :
    (ws ++ c :: s).dropWhile isspace = c :: s := by
  rw [List.dropWhile_append_of_pos hSpace, List.dropWhile_cons_of_neg (by simp [hc])]

/-! ## The texts `%2hhx` takes -/

/-- What stands for a byte behind the white space, with the text that follows it. -/
inductive ByteText (bareZero : Bool) : List UInt8 → List UInt8 → Prop
  | pair {a b : UInt8} {rest : List UInt8} (ha : isxdigit a = true) (hb : isxdigit b = true) :
      ByteText bareZero [a, b] rest
  /-- One digit, where no second digit follows and no `0x` is begun. -/
  | single {a : UInt8} {rest : List UInt8} (ha : isxdigit a = true)
      (hEnd : rest.head?.any isxdigit = false)
      (hPrefix : a = 48 → rest.head?.any isX = false) : ByteText bareZero [a] rest
  /-- The sign takes the place of a digit. -/
  | signed {c a : UInt8} {rest : List UInt8} (hc : c = 45 ∨ c = 43) (ha : isxdigit a = true) :
      ByteText bareZero [c, a] rest
  | zeroX {x : UInt8} {rest : List UInt8} (hBare : bareZero = true) (hx : isX x = true) :
      ByteText bareZero [48, x] rest

theorem ByteText.head_not_space {bareZero : Bool} {text rest : List UInt8}
    (hText : ByteText bareZero text rest) :
    ∃ c t, text = c :: t ∧ isspace c = false := by
  cases hText with
  | pair ha hb => exact ⟨_, _, rfl, not_isspace_of_isxdigit ha⟩
  | single ha hEnd hPrefix => exact ⟨_, _, rfl, not_isspace_of_isxdigit ha⟩
  | signed hc ha =>
    refine ⟨_, _, rfl, ?_⟩
    rcases hc with rfl | rfl
    · rfl
    · rfl
  | zeroX hBare hx => exact ⟨_, _, rfl, rfl⟩

section

variable {bareZero : Bool} {width : Nat} {a b c : UInt8} {s rest : List UInt8}

theorem scanHex_unsigned (hSpace : isspace c = false) (hSign : c ≠ 45 ∧ c ≠ 43) :
    scanHex bareZero width (c :: s) = (scanHexMagnitude bareZero width (c :: s)).map
      fun (v, rest) => (UInt8.ofNat (clampUlong false v), rest) := by
  have hDrop : (c :: s).dropWhile isspace = c :: s := List.dropWhile_cons_of_neg (by simp [hSpace])
  simp [scanHex, hDrop, hSign.1, hSign.2]

theorem scanHex_signed (hSign : c = 45 ∨ c = 43) :
    scanHex bareZero width (c :: s) = (scanHexMagnitude bareZero (width - 1) s).map
      fun (v, rest) => (UInt8.ofNat (clampUlong (c = 45) v), rest) := by
  have hSpace : isspace c = false := by rcases hSign with rfl | rfl <;> rfl
  have hDrop : (c :: s).dropWhile isspace = c :: s := List.dropWhile_cons_of_neg (by simp [hSpace])
  simp [scanHex, hDrop, hSign]

theorem scanHex_spaces {ws : List UInt8} (hSpaces : ∀ c ∈ ws, isspace c = true)
    (hSpace : isspace c = false) :
    scanHex bareZero width (ws ++ c :: s) = scanHex bareZero width (c :: s) := by
  have hDrop : (c :: s).dropWhile isspace = c :: s := List.dropWhile_cons_of_neg (by simp [hSpace])
  simp only [scanHex, dropWhile_isspace_append hSpaces hSpace, hDrop]

theorem scanHexMagnitude_two_of_not (hc : isxdigit c = false) :
    scanHexMagnitude bareZero 2 (c :: s) = none := by
  have hZero : c ≠ 48 := by
    rintro rfl
    cases hc
  simp [scanHexMagnitude, scanHexDigits, hc, hZero]

theorem scanHexMagnitude_two_pair (ha : isxdigit a = true) (hb : isxdigit b = true) :
    scanHexMagnitude bareZero 2 (a :: b :: rest) = some (16 * hexValue a + hexValue b, rest) := by
  simp [scanHexMagnitude, not_isX_of_isxdigit hb, scanHexDigits, ha, hb, hexDigitsValue]

theorem scanHexMagnitude_two_single (ha : isxdigit a = true)
    (hEnd : s.head?.any isxdigit = false) (hPrefix : a = 48 → s.head?.any isX = false) :
    scanHexMagnitude bareZero 2 (a :: s) = some (hexValue a, s) := by
  have hTest : ¬ (2 ≤ 2 ∧ (a :: s).head? = some 48 ∧ ((a :: s).tail.head?.any isX = true)) := by
    rintro ⟨-, hZero, hX⟩
    rw [List.tail_cons, hPrefix (Option.some.inj hZero)] at hX
    cases hX
  rw [scanHexMagnitude, if_neg hTest]
  cases s with
  | nil => simp [scanHexDigits, ha, hexDigitsValue]
  | cons b s =>
    have hb : isxdigit b = false := hEnd
    simp [scanHexDigits, ha, hb, hexDigitsValue]

theorem scanHexMagnitude_two_zeroX (hx : isX b = true) :
    scanHexMagnitude bareZero 2 (48 :: b :: rest) =
      if bareZero then some (0, rest) else none := by
  simp [scanHexMagnitude, hx, scanHexDigits]

/-- One place is left behind a sign. -/
theorem scanHexMagnitude_one :
    scanHexMagnitude bareZero 1 s =
      if s.head?.any isxdigit then some (hexValue (s.headD 0), s.tail) else none := by
  cases s with
  | nil => rfl
  | cons a s =>
    cases ha : isxdigit a with
    | false => simp [scanHexMagnitude, scanHexDigits, ha]
    | true => simp [scanHexMagnitude, scanHexDigits, ha, hexDigitsValue]

/-- Every kind of text is taken. -/
theorem ByteText.scanHex {text : List UInt8} (hText : ByteText bareZero text rest) :
    ∃ v, scanHex bareZero 2 (text ++ rest) = some (v, rest) := by
  cases hText with
  | @pair a b _ ha hb =>
    rw [List.cons_append, scanHex_unsigned (not_isspace_of_isxdigit ha) (not_sign_of_isxdigit ha)]
    exact ⟨_, by rw [List.cons_append, List.nil_append, scanHexMagnitude_two_pair ha hb]; rfl⟩
  | @single a _ ha hEnd hPrefix =>
    rw [List.cons_append, scanHex_unsigned (not_isspace_of_isxdigit ha) (not_sign_of_isxdigit ha)]
    exact ⟨_, by rw [List.nil_append, scanHexMagnitude_two_single ha hEnd hPrefix]; rfl⟩
  | @signed c a _ hc ha =>
    have hDigit : (a :: rest).head?.any isxdigit = true := ha
    rw [List.cons_append, scanHex_signed hc, scanHexMagnitude_one]
    exact ⟨_, by rw [List.cons_append, List.nil_append, if_pos hDigit]; rfl⟩
  | @zeroX x _ hBare hx =>
    rw [List.cons_append, scanHex_unsigned rfl (by decide)]
    exact ⟨_, by rw [List.cons_append, List.nil_append, scanHexMagnitude_two_zeroX hx,
      if_pos hBare]; rfl⟩

/-- Nothing else is taken where no white space is left. -/
theorem byteText_of_scanHex (hSpace : isspace c = false) {v : UInt8}
    (hScan : scanHex bareZero 2 (c :: s) = some (v, rest)) :
    ∃ text, ByteText bareZero text rest ∧ c :: s = text ++ rest := by
  by_cases hSign : c = 45 ∨ c = 43
  · rw [scanHex_signed hSign, scanHexMagnitude_one] at hScan
    cases s with
    | nil => cases hScan
    | cons a s =>
      cases ha : isxdigit a with
      | false => simp [ha] at hScan
      | true =>
        obtain ⟨-, rfl⟩ : _ ∧ s = rest := by simpa [ha] using hScan
        exact ⟨[c, a], .signed hSign ha, rfl⟩
  · rw [scanHex_unsigned hSpace (not_or.mp hSign)] at hScan
    cases hc : isxdigit c with
    | false =>
      rw [scanHexMagnitude_two_of_not hc] at hScan
      cases hScan
    | true =>
      cases hEnd : s.head?.any isxdigit with
      | true =>
        obtain ⟨b, hb, hDigit⟩ := (Option.any_eq_true ..).mp hEnd
        obtain ⟨s, rfl⟩ := List.head?_eq_some_iff.mp hb
        rw [scanHexMagnitude_two_pair hc hDigit] at hScan
        cases hScan
        exact ⟨[c, b], .pair hc hDigit, rfl⟩
      | false =>
        by_cases hPrefix : c = 48 ∧ s.head?.any isX = true
        · obtain ⟨rfl, hX⟩ := hPrefix
          obtain ⟨x, hx, hX⟩ := (Option.any_eq_true ..).mp hX
          obtain ⟨s, rfl⟩ := List.head?_eq_some_iff.mp hx
          rw [scanHexMagnitude_two_zeroX hX] at hScan
          cases hBare : bareZero with
          | false => simp [hBare] at hScan
          | true =>
            obtain ⟨-, rfl⟩ : _ ∧ s = rest := by simpa [hBare] using hScan
            exact ⟨[48, x], .zeroX rfl hX, rfl⟩
        · have hNoX : c = 48 → s.head?.any isX = false := by
            intro hZero
            exact Bool.eq_false_iff.mpr fun hX => hPrefix ⟨hZero, hX⟩
          rw [scanHexMagnitude_two_single hc hEnd hNoX] at hScan
          cases hScan
          exact ⟨[c], .single hc hEnd hNoX, rfl⟩

/-- `%2hhx` takes white space and one of the four kinds of text. -/
theorem scanHex_two_iff : (∃ v, scanHex bareZero 2 s = some (v, rest)) ↔
    ∃ ws text, (∀ c ∈ ws, isspace c = true) ∧ ByteText bareZero text rest ∧
      s = ws ++ (text ++ rest) := by
  constructor
  · rintro ⟨v, hScan⟩
    have hSpaces : ∀ c ∈ s.takeWhile isspace, isspace c = true := fun c hc =>
      List.mem_takeWhile_imp hc
    have hSplit := List.takeWhile_append_dropWhile (p := isspace) (l := s)
    cases hRest : s.dropWhile isspace with
    | nil =>
      simp [scanHex, hRest, scanHexMagnitude, scanHexDigits] at hScan
    | cons c t =>
      have hSpace : isspace c = false := by
        have hHead := List.head?_dropWhile_not isspace s
        simpa [hRest] using hHead
      rw [hRest] at hSplit
      rw [← hSplit, scanHex_spaces hSpaces hSpace] at hScan
      obtain ⟨text, hText, hEq⟩ := byteText_of_scanHex hSpace hScan
      exact ⟨_, text, hSpaces, hText, by rw [← hEq, hSplit]⟩
  · rintro ⟨ws, text, hSpaces, hText, rfl⟩
    obtain ⟨v, hScan⟩ := hText.scanHex
    obtain ⟨c, t, hc, hSpace⟩ := hText.head_not_space
    rw [hc] at hScan ⊢
    rw [List.cons_append] at hScan ⊢
    exact ⟨v, by rw [scanHex_spaces hSpaces hSpace, hScan]⟩

/-! ## Two digits -/

theorem hexValue_lt (c : UInt8) : hexValue c < 256 := by
  have hByte := c.toNat_lt
  rw [hexValue]
  split_ifs <;> omega

/-- Two digits are read as one byte. -/
theorem scanHex_pair (ha : isxdigit a = true) (hb : isxdigit b = true) :
    scanHex bareZero 2 (a :: b :: rest) =
      some (UInt8.ofNat (16 * hexValue a + hexValue b), rest) := by
  have hA := hexValue_lt a
  have hB := hexValue_lt b
  rw [scanHex_unsigned (not_isspace_of_isxdigit ha) (not_sign_of_isxdigit ha),
    scanHexMagnitude_two_pair ha hb, Option.map_some]
  show some (UInt8.ofNat (clampUlong false _), rest) = _
  rw [clampUlong_of_lt (by omega)]

/-- What `%02x` prints is read back. -/
theorem scanHex_hex2 (v : UInt8) : scanHex bareZero 2 (hex2 v ++ rest) = some (v, rest) := by
  have hByte := v.toNat_lt
  have hHigh : v.toNat / 16 < 16 := by omega
  have hLow : v.toNat % 16 < 16 := by omega
  rw [hex2, List.cons_append, List.cons_append, List.nil_append,
    scanHex_pair (isxdigit_hexDigit hHigh) (isxdigit_hexDigit hLow), hexValue_hexDigit hHigh,
    hexValue_hexDigit hLow, Nat.div_add_mod, UInt8.ofNat_toNat]

end

/-! ## Formats of bytes -/

/-- The texts a format of `%2hhx` conversions takes whole. What follows them is not read. -/
inductive Accepts (bareZero : Bool) : List HexDirective → List UInt8 → Prop
  | nil (rest : List UInt8) : Accepts bareZero [] rest
  | lit {c : UInt8} {ds : List HexDirective} {s : List UInt8} (hRest : Accepts bareZero ds s) :
      Accepts bareZero (.lit c :: ds) (c :: s)
  | hex {ds : List HexDirective} {ws text s : List UInt8}
      (hSpaces : ∀ c ∈ ws, isspace c = true) (hText : ByteText bareZero text s)
      (hRest : Accepts bareZero ds s) : Accepts bareZero (.hex 2 :: ds) (ws ++ (text ++ s))

namespace HexDirective

/-- How many bytes a format assigns. -/
def conversions : List HexDirective → Nat
  | [] => 0
  | .lit _ :: ds => conversions ds
  | .hex _ :: ds => conversions ds + 1

/-- Bytes are read two digits at a time, and the format ends with one of them. -/
def IsByteFormat : List HexDirective → Bool
  | [] => true
  | .lit _ :: ds => !ds.isEmpty && IsByteFormat ds
  | .hex width :: ds => width = 2 && IsByteFormat ds

/-- What `printf` writes for a format of `%02x` in the place of the conversions. -/
def printBytes : List HexDirective → List UInt8 → List UInt8
  | [], _ => []
  | .lit c :: ds, vs => c :: printBytes ds vs
  | .hex _ :: _, [] => []
  | .hex _ :: ds, v :: vs => hex2 v ++ printBytes ds vs

theorem conversions_pos {ds : List HexDirective} (hFormat : IsByteFormat ds = true)
    (hNonempty : ds.isEmpty = false) : 0 < conversions ds := by
  induction ds with
  | nil => cases hNonempty
  | cons d ds ih =>
    cases d with
    | lit c =>
      simp only [IsByteFormat, Bool.and_eq_true, Bool.not_eq_true'] at hFormat
      exact ih hFormat.2 hFormat.1
    | hex width => exact Nat.succ_pos _

end HexDirective

open HexDirective

variable {bareZero : Bool}

theorem accepts_lit_iff {c : UInt8} {ds : List HexDirective} {s : List UInt8} :
    Accepts bareZero (.lit c :: ds) s ↔ s.head? = some c ∧ Accepts bareZero ds s.tail := by
  constructor
  · intro hAccepts
    cases hAccepts with
    | lit hRest => exact ⟨rfl, hRest⟩
  · intro hBoth
    obtain ⟨s, rfl⟩ := List.head?_eq_some_iff.mp hBoth.1
    exact .lit hBoth.2

theorem accepts_hex_iff {ds : List HexDirective} {s : List UInt8} :
    Accepts bareZero (.hex 2 :: ds) s ↔
      ∃ v rest, scanHex bareZero 2 s = some (v, rest) ∧ Accepts bareZero ds rest := by
  constructor
  · intro hAccepts
    cases hAccepts with
    | hex hSpaces hText hRest =>
      obtain ⟨v, hScan⟩ := scanHex_two_iff.mpr ⟨_, _, hSpaces, hText, rfl⟩
      exact ⟨v, _, hScan, hRest⟩
  · intro hScanned
    obtain ⟨v, rest, hScan, hRest⟩ := hScanned
    obtain ⟨ws, text, hSpaces, hText, rfl⟩ := scanHex_two_iff.mp ⟨v, hScan⟩
    exact .hex hSpaces hText hRest

/-- All bytes are assigned exactly for the accepted texts. -/
theorem scanBytes_length_iff {ds : List HexDirective} (hFormat : IsByteFormat ds = true)
    (s : List UInt8) :
    (scanBytes bareZero ds s).length = conversions ds ↔ Accepts bareZero ds s := by
  induction ds generalizing s with
  | nil => exact ⟨fun _ => .nil s, fun _ => rfl⟩
  | cons d ds ih =>
    cases d with
    | lit c =>
      simp only [IsByteFormat, Bool.and_eq_true, Bool.not_eq_true'] at hFormat
      rw [scanBytes, conversions, accepts_lit_iff, ← ih hFormat.2]
      by_cases hHead : s.head? = some c
      · rw [if_pos hHead, and_iff_right hHead]
      · -- there is a conversion behind the character, which is not reached
        have hPos := conversions_pos hFormat.2 hFormat.1
        rw [if_neg hHead, List.length_nil]
        exact iff_of_false (Nat.ne_of_lt hPos) fun hBoth => hHead hBoth.1
    | hex width =>
      simp only [IsByteFormat, Bool.and_eq_true, decide_eq_true_eq] at hFormat
      obtain ⟨rfl, hFormat⟩ := hFormat
      rw [scanBytes, conversions, accepts_hex_iff]
      cases hScan : scanHex bareZero 2 s with
      | none => simp
      | some found =>
        obtain ⟨v, rest⟩ := found
        simp [← ih hFormat]

/-- What was printed is read back. -/
theorem scanBytes_printBytes {ds : List HexDirective} (hFormat : IsByteFormat ds = true)
    {vs : List UInt8} (hLength : vs.length = conversions ds) :
    scanBytes bareZero ds (printBytes ds vs) = vs := by
  induction ds generalizing vs with
  | nil => exact (List.eq_nil_of_length_eq_zero hLength).symm
  | cons d ds ih =>
    cases d with
    | lit c =>
      simp only [IsByteFormat, Bool.and_eq_true] at hFormat
      rw [printBytes, scanBytes, List.head?_cons, if_pos rfl, List.tail_cons]
      exact ih hFormat.2 hLength
    | hex width =>
      simp only [IsByteFormat, Bool.and_eq_true, decide_eq_true_eq] at hFormat
      obtain ⟨rfl, hFormat⟩ := hFormat
      cases vs with
      | nil => cases hLength
      | cons v vs =>
        rw [printBytes, scanBytes, scanHex_hex2]
        exact congrArg (v :: ·) (ih hFormat (Nat.succ.inj hLength))

end DebugCode.Lib
