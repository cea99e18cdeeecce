import DebugCode.Lib.ScanHex
import DebugCode.Uefivar.Record
import Mathlib.Data.List.Forall2
import Mathlib.Logic.Function.Basic

/-!
# GUIDs as text

`str_to_guid` reads a GUID with one `sscanf`, and `guid_to_str` prints one. Both spell the
bytes in the order of `guidOrder`.

* `strToGuid_eq_zero_iff`: the texts `str_to_guid` takes. They need not be as long as a GUID,
  since `%2hhx` skips white space, takes signs and single digits, and nothing looks at what
  follows the last byte.
* `strToGuid_wellFormed_iff`: which strings it therefore judges by the layout.
* `guid_round_trip`: printing and reading are inverse on GUIDs and on their printed form.
-/

namespace DebugCode.Uefivar

open Lib HexDirective

/-- The character `-`. -/
def dash : UInt8 := 45

/-- `%2hhx` -/
def byte : HexDirective := .hex 2

/-- `"%2hhx%2hhx%2hhx%2hhx-%2hhx%2hhx-%2hhx%2hhx-%2hhx%2hhx-%2hhx%2hhx%2hhx%2hhx%2hhx%2hhx"` -/
def guidFormat : List HexDirective :=
  [byte, byte, byte, byte, .lit dash, byte, byte, .lit dash, byte, byte, .lit dash, byte, byte,
    .lit dash, byte, byte, byte, byte, byte, byte]

/-- What `sscanf` stores through the addresses it is given. -/
def assign (guid : Fin 16 → UInt8) (addresses : List (Fin 16)) (values : List UInt8) :
    Fin 16 → UInt8 :=
  (addresses.zip values).foldl (fun guid p => Function.update guid p.1 p.2) guid

/-- The return code and the bytes of `guid`. `n` is what the variable `n` holds before it is
assigned. `sscanf` returns the number of bytes it stored, or at once `EOF`, which is not 16
either. -/
def strToGuid (bareZero : Bool) (n : Int) (guidStr : CString) (guid : Fin 16 → UInt8)
    (guidLen : Nat) : Int × (Fin 16 → UInt8) :=
  let values := scanBytes bareZero guidFormat guidStr.bytes
  let n := if 16 ≤ guidLen then (values.length : Int) else n
  let guid := if 16 ≤ guidLen then assign guid guidOrder values else guid
  (if n = 16 then 0 else -1, guid)

/-- What `case 'g'` of `main` leaves: the bytes of the GUID, `stderr`, and whether it exits. -/
structure OptionResult where
  guid : Fin 16 → UInt8
  stderr : List UInt8
  exits : Bool

def optionG (bareZero : Bool) (n : Int) (optarg : CString) (guid : Fin 16 → UInt8) :
    OptionResult :=
  let result := strToGuid bareZero n optarg guid 16
  if result.1 < 0 then ⟨result.2, ascii "Illegal GUID: " ++ optarg.bytes ++ ascii "\n", true⟩
  else ⟨result.2, [], false⟩

/-- A text fits a layout, in which every character but `-` stands for a digit. -/
def Fits (digit : UInt8 → Bool) (layout s : List UInt8) : Prop :=
  List.Forall₂ (fun p c => if p = dash then c = dash else digit c = true) layout s

def layout : List UInt8 := ascii "xxxxxxxx-xxxx-xxxx-xxxx-xxxxxxxxxxxx"

/-- Exactly 36 characters, hexadecimal digits of either case and `-` in their places. -/
def WellFormed (s : List UInt8) : Prop := Fits isxdigit layout s

/-- A digit that `%x` prints. -/
def isLowerXdigit (c : UInt8) : Bool := isdigit c || (97 ≤ c && c ≤ 102)

/-- Well formed in lower case. -/
def Canonical (s : List UInt8) : Prop := Fits isLowerXdigit layout s

/-- Sixteen texts that `%2hhx` takes, with `-` right behind the fourth, the sixth, the eighth
and the tenth of them, and anything behind the last one. -/
def Lax (bareZero : Bool) (s : List UInt8) : Prop := Accepts bareZero guidFormat s

/-! ## The layout and the format -/

/-- The layout of the texts a format prints. -/
def layoutOf : List HexDirective → List UInt8
  | [] => []
  | .lit c :: ds => c :: layoutOf ds
  | .hex _ :: ds => 120 :: 120 :: layoutOf ds

/-- A format of bytes and dashes. -/
structure DashFormat (ds : List HexDirective) : Prop where
  bytes : IsByteFormat ds = true
  dashes : ∀ c, .lit c ∈ ds → c = dash

theorem dashFormat_guidFormat : DashFormat guidFormat where
  bytes := rfl
  dashes c hc := by simpa [guidFormat, byte] using hc

theorem DashFormat.tail {d : HexDirective} {ds : List HexDirective}
    (hFormat : DashFormat (d :: ds)) : DashFormat ds where
  bytes := by
    have hBytes := hFormat.bytes
    cases d with
    | lit c =>
      simp only [IsByteFormat, Bool.and_eq_true] at hBytes
      exact hBytes.2
    | hex width =>
      simp only [IsByteFormat, Bool.and_eq_true] at hBytes
      exact hBytes.2
  dashes c hc := hFormat.dashes c (List.mem_cons_of_mem _ hc)

/-- The digits of a text that fits the layout of a format, in pairs. -/
theorem fits_cases {digit : UInt8 → Bool} {d : HexDirective} {ds : List HexDirective}
    {s : List UInt8} (hFormat : DashFormat (d :: ds)) (hFits : Fits digit (layoutOf (d :: ds)) s) :
    (d = .lit dash ∧ ∃ t, s = dash :: t ∧ Fits digit (layoutOf ds) t) ∨
      (d = .hex 2 ∧ ∃ a b t, s = a :: b :: t ∧ digit a = true ∧ digit b = true ∧
        Fits digit (layoutOf ds) t) := by
  cases d with
  | lit c =>
    obtain rfl := hFormat.dashes c List.mem_cons_self
    cases hFits with
    | cons hHead hTail =>
      rw [if_pos rfl] at hHead
      exact Or.inl ⟨rfl, _, by rw [hHead], hTail⟩
  | hex width =>
    have hWidth := hFormat.bytes
    simp only [IsByteFormat, Bool.and_eq_true, decide_eq_true_eq] at hWidth
    obtain ⟨rfl, -⟩ := hWidth
    cases hFits with
    | cons hFirst hTail =>
      cases hTail with
      | cons hSecond hTail => exact Or.inr ⟨rfl, _, _, _, rfl, hFirst, hSecond, hTail⟩

/-- A well-formed text is taken. -/
theorem accepts_of_fits {bareZero : Bool} {ds : List HexDirective} {s : List UInt8}
    (hFormat : DashFormat ds) (hFits : Fits isxdigit (layoutOf ds) s) :
    Accepts bareZero ds s := by
  induction ds generalizing s with
  | nil => exact .nil s
  | cons d ds ih =>
    rcases fits_cases hFormat hFits with ⟨rfl, t, rfl, hTail⟩ | ⟨rfl, a, b, t, rfl, ha, hb, hTail⟩
    · exact .lit (ih hFormat.tail hTail)
    · have hSpaces : ∀ c ∈ ([] : List UInt8), isspace c = true := by simp
      exact .hex hSpaces (.pair ha hb) (ih hFormat.tail hTail)

theorem hexDigit_hexValue {c : UInt8} (hc : isLowerXdigit c = true) :
    hexValue c < 16 ∧ hexDigit (hexValue c) = c := by
  have hAll : ∀ b : BitVec 8, isLowerXdigit ⟨b⟩ = true →
      hexValue ⟨b⟩ < 16 ∧ hexDigit (hexValue ⟨b⟩) = ⟨b⟩ := by decide +kernel
  exact hAll c.toBitVec hc

/-- Two lower-case digits are what `%02x` prints for some byte. -/
theorem exists_hex2 {a b : UInt8} (ha : isLowerXdigit a = true) (hb : isLowerXdigit b = true) :
    ∃ v, hex2 v = [a, b] := by
  obtain ⟨hALt, hA⟩ := hexDigit_hexValue ha
  obtain ⟨hBLt, hB⟩ := hexDigit_hexValue hb
  have hNat : (UInt8.ofNat (16 * hexValue a + hexValue b)).toNat =
      16 * hexValue a + hexValue b := by
    rw [UInt8.toNat_ofNat']
    omega
  refine ⟨UInt8.ofNat (16 * hexValue a + hexValue b), ?_⟩
  have hHigh : (16 * hexValue a + hexValue b) / 16 = hexValue a := by omega
  have hLow : (16 * hexValue a + hexValue b) % 16 = hexValue b := by omega
  rw [hex2, hNat, hHigh, hLow, hA, hB]

/-- A text in lower case is the printed form of some bytes. -/
theorem exists_printBytes_of_fits {ds : List HexDirective} {s : List UInt8}
    (hFormat : DashFormat ds) (hFits : Fits isLowerXdigit (layoutOf ds) s) :
    ∃ vs, vs.length = conversions ds ∧ s = printBytes ds vs := by
  induction ds generalizing s with
  | nil =>
    cases hFits
    exact ⟨[], rfl, rfl⟩
  | cons d ds ih =>
    rcases fits_cases hFormat hFits with ⟨rfl, t, rfl, hTail⟩ | ⟨rfl, a, b, t, rfl, ha, hb, hTail⟩
    · obtain ⟨vs, hLength, rfl⟩ := ih hFormat.tail hTail
      exact ⟨vs, hLength, rfl⟩
    · obtain ⟨vs, hLength, rfl⟩ := ih hFormat.tail hTail
      obtain ⟨v, hPair⟩ := exists_hex2 ha hb
      refine ⟨v :: vs, congrArg (· + 1) hLength, ?_⟩
      rw [printBytes, hPair]
      rfl

/-! ## The strings that are taken -/

section

variable (bareZero : Bool) (n : Int) (s : CString) (guid : Fin 16 → UInt8)

theorem strToGuid_fst : (strToGuid bareZero n s guid 16).1 =
    if (scanBytes bareZero guidFormat s.bytes).length = 16 then 0 else -1 := by
  simp only [strToGuid, Nat.le_refl, if_true]
  split_ifs <;> omega

/-- `str_to_guid` succeeds on the lax texts. -/
theorem strToGuid_eq_zero_iff :
    (strToGuid bareZero n s guid 16).1 = 0 ↔ Lax bareZero s.bytes := by
  rw [Lax, ← scanBytes_length_iff dashFormat_guidFormat.bytes, strToGuid_fst]
  show _ ↔ (scanBytes bareZero guidFormat s.bytes).length = 16
  split_ifs with hAll
  · simp only [hAll]
  · simp [hAll]

end

theorem lax_of_wellFormed {bareZero : Bool} {t : List UInt8} (hFits : WellFormed t) :
    Lax bareZero t :=
  accepts_of_fits dashFormat_guidFormat hFits

/-- `str_to_guid` judges a string by the layout exactly when the string is well formed or not
even lax. The others it takes though they are not well formed. -/
theorem strToGuid_wellFormed_iff (bareZero : Bool) (n : Int) (s : CString)
    (guid : Fin 16 → UInt8) :
    ((strToGuid bareZero n s guid 16).1 = 0 ↔ WellFormed s.bytes) ↔
      (WellFormed s.bytes ∨ ¬ Lax bareZero s.bytes) := by
  rw [strToGuid_eq_zero_iff]
  have hLax : WellFormed s.bytes → Lax bareZero s.bytes := lax_of_wellFormed
  tauto

theorem not_wellFormed_of_length {t : List UInt8} (hLength : t.length ≠ 36) :
    ¬ WellFormed t := by
  intro hFits
  exact hLength hFits.length_eq.symm

/-- A GUID with text behind it and sixteen single digits are GUIDs to `str_to_guid`. -/
theorem strToGuid_takes_malformed :
    ((strToGuid false 0 (CString.literal "a5133b64-71d5-45fc-81be-e809bcacc94f.txt") (fun _ => 0)
        16).1 = 0 ∧
      ¬ WellFormed (CString.literal "a5133b64-71d5-45fc-81be-e809bcacc94f.txt").bytes) ∧
      ((strToGuid false 0 (CString.literal "1 2 3 4-5 6-7 8-9 a-b c d e f 0") (fun _ => 0)
        16).1 = 0 ∧ ¬ WellFormed (CString.literal "1 2 3 4-5 6-7 8-9 a-b c d e f 0").bytes) := by
  have hTrailing : (scanBytes false guidFormat
      (CString.literal "a5133b64-71d5-45fc-81be-e809bcacc94f.txt").bytes).length = 16 := by
    decide +kernel
  have hShort : (scanBytes false guidFormat
      (CString.literal "1 2 3 4-5 6-7 8-9 a-b c d e f 0").bytes).length = 16 := by
    decide +kernel
  rw [strToGuid_fst, if_pos hTrailing, strToGuid_fst, if_pos hShort]
  exact ⟨⟨rfl, not_wellFormed_of_length (by decide +kernel)⟩,
    ⟨rfl, not_wellFormed_of_length (by decide +kernel)⟩⟩

/-! ## Printing and reading -/

theorem guidText_eq (guid : Fin 16 → UInt8) :
    guidText guid = printBytes guidFormat (guidOrder.map guid) := by
  have hDash : ascii "-" = [dash] := rfl
  unfold guidText
  simp only [hDash, guidFormat, byte, guidOrder, List.map_cons, printBytes, List.append_assoc,
    List.cons_append, List.nil_append, List.map_nil, List.append_nil]

/-- The values read land where the ones printed come from. -/
theorem assign_map {addresses : List (Fin 16)} {guid guid' : Fin 16 → UInt8} {i : Fin 16}
    (hRead : i ∈ addresses ∨ guid i = guid' i) :
    assign guid addresses (addresses.map guid') i = guid' i := by
  induction addresses generalizing guid with
  | nil => exact hRead.resolve_left List.not_mem_nil
  | cons a addresses ih =>
    show assign (Function.update guid a (guid' a)) addresses (addresses.map guid') i = _
    apply ih
    by_cases hHead : i = a
    · exact Or.inr (by rw [hHead, Function.update_self])
    · rw [Function.update_of_ne hHead]
      exact hRead.imp_left fun hIn => (List.mem_cons.mp hIn).resolve_left hHead

theorem mem_guidOrder (i : Fin 16) : i ∈ guidOrder := by
  revert i
  decide

theorem assign_guidOrder (guid guid' : Fin 16 → UInt8) :
    assign guid guidOrder (guidOrder.map guid') = guid' := by
  funext i
  exact assign_map (Or.inl (mem_guidOrder i))

/-- Sixteen bytes are the bytes of a GUID, in the order they are spelled in. -/
theorem exists_map_guidOrder {vs : List UInt8} (hLength : vs.length = 16) :
    ∃ guid, guidOrder.map guid = vs := by
  refine ⟨fun i => vs.getD (guidOrder.idxOf i) 0, ?_⟩
  apply List.ext_getElem
  · rw [List.length_map, hLength]
    rfl
  · intro k hk hk'
    have hNodup : guidOrder.Nodup := by decide
    rw [List.getElem_map, hNodup.idxOf_getElem, List.getD_eq_getElem _ _ hk']

/-- What `%02x` prints fits the layout, in lower case. -/
theorem fits_printBytes {ds : List HexDirective} (hFormat : DashFormat ds) {vs : List UInt8}
    (hLength : vs.length = conversions ds) :
    Fits isLowerXdigit (layoutOf ds) (printBytes ds vs) := by
  have hDigit : ∀ v < 16, isLowerXdigit (hexDigit v) = true := by decide
  induction ds generalizing vs with
  | nil => exact .nil
  | cons d ds ih =>
    cases d with
    | lit c =>
      obtain rfl := hFormat.dashes c List.mem_cons_self
      exact .cons (if_pos rfl ▸ rfl) (ih hFormat.tail hLength)
    | hex width =>
      cases vs with
      | nil => cases hLength
      | cons v vs =>
        have hByte := v.toNat_lt
        exact .cons (hDigit _ (by omega)) (.cons (hDigit _ (by omega))
          (ih hFormat.tail (Nat.succ.inj hLength)))

theorem canonical_guidText (guid : Fin 16 → UInt8) : Canonical (guidText guid) := by
  rw [guidText_eq]
  exact fits_printBytes dashFormat_guidFormat rfl

theorem nul_free_of_fits {t p : List UInt8} (hFits : Fits isLowerXdigit p t) : 0 ∉ t := by
  induction hFits with
  | nil => exact List.not_mem_nil
  | @cons a b p t hHead _ ih =>
    have hNe : b ≠ 0 := by
      rintro rfl
      split_ifs at hHead with hDash
      · cases hHead
      · cases hHead
    exact fun hIn => (List.mem_cons.mp hIn).elim (fun h => hNe h.symm) ih

theorem guidToStr_bytes (guid : Fin 16 → UInt8) : (guidToStr guid 37).bytes = guidText guid := by
  have hCanonical := canonical_guidText guid
  have hLength : (guidText guid).length = 36 := hCanonical.length_eq.symm
  have hBytes : (CString.ofBuffer (guidText guid)).bytes = guidText guid := by
    apply List.takeWhile_eq_self_iff.mpr
    intro c hc
    have hNe : c ≠ 0 := fun h => nul_free_of_fits hCanonical (h ▸ hc)
    simpa using hNe
  rw [guidToStr, if_pos (by decide), snprintf_of_fits, hBytes]
  rw [CString.strlen, hBytes, hLength]
  decide

theorem strToGuid_printed {bareZero : Bool} {n : Int} {s : CString} {guid guid' : Fin 16 → UInt8}
    (hText : s.bytes = printBytes guidFormat (guidOrder.map guid')) :
    strToGuid bareZero n s guid 16 = (0, guid') := by
  have hScan : scanBytes bareZero guidFormat s.bytes = guidOrder.map guid' := by
    rw [hText]
    exact scanBytes_printBytes dashFormat_guidFormat.bytes rfl
  have hAssign := assign_guidOrder guid guid'
  rw [← hScan] at hAssign
  have hCode : (strToGuid bareZero n s guid 16).1 = 0 := by
    rw [strToGuid_fst, hScan]
    rfl
  exact Prod.ext hCode hAssign

/-- A printed GUID is read back, and a string in canonical form is taken and printed again
as it was. -/
theorem guid_round_trip (bareZero : Bool) (n : Int) (old : Fin 16 → UInt8) :
    (∀ guid, strToGuid bareZero n (guidToStr guid 37) old 16 = (0, guid)) ∧
      ∀ s : CString, Canonical s.bytes → (strToGuid bareZero n s old 16).1 = 0 ∧
        guidToStr (strToGuid bareZero n s old 16).2 37 = s := by
  constructor
  · intro guid
    exact strToGuid_printed ((guidToStr_bytes guid).trans (guidText_eq guid))
  · intro s hCanonical
    obtain ⟨vs, hLength, hText⟩ := exists_printBytes_of_fits dashFormat_guidFormat hCanonical
    obtain ⟨guid, rfl⟩ := exists_map_guidOrder hLength
    rw [strToGuid_printed hText]
    refine ⟨rfl, CString.ext ?_⟩
    rw [guidToStr_bytes, guidText_eq, hText]

/-- The GUID `random_guid` falls back to. -/
theorem guid_round_trip_default :
    guidToStr (strToGuid false 0 (CString.literal "a5133b64-71d5-45fc-81be-e809bcacc94f")
      (fun _ => 0) 16).2 37 = CString.literal "a5133b64-71d5-45fc-81be-e809bcacc94f" := by
  have hCanonical :
      Canonical (CString.literal "a5133b64-71d5-45fc-81be-e809bcacc94f").bytes := by
    unfold Canonical Fits
    decide +kernel
  exact ((guid_round_trip false 0 fun _ => 0).2 _ hCanonical).2

end DebugCode.Uefivar
