import DebugCode.Lib.HexText
import DebugCode.Lib.Lines

/-!
# The memory map of the BIOS

`e820.c` asks the BIOS for one entry of the memory map after the other. Each reply has a value
with which to ask for the next entry; the map ends with an entry whose value is zero, or with a
call that sets the carry flag. What the BIOS does is not known: it may have a state of its own,
and may go on for ever.

* `mainLoop_iff`: the loop ends exactly when the BIOS comes to an end, and has then printed a
  line for each entry served, in their order.
* `readMap_print`: the bases, lengths and kinds can be read back from the text.
* `main_iff`: the program ends exactly when the BIOS serves a map, and this map is what a reader
  of its output gets.
* `request_buffer`: the BIOS is given the address of the buffer.
-/

namespace DebugCode.BiosMap

open Lib

structure E820 where
  baseLo : BitVec 32
  baseHi : BitVec 32
  lengthLo : BitVec 32
  lengthHi : BitVec 32
  type : BitVec 32

namespace E820

def base (e : E820) : BitVec 64 := e.baseHi ++ e.baseLo

def length (e : E820) : BitVec 64 := e.lengthHi ++ e.lengthLo

end E820

/-- The registers set for a call of interrupt `0x15`. -/
structure Request where
  eax : BitVec 32
  ebx : BitVec 32
  ecx : BitVec 32
  edx : BitVec 32
  es : BitVec 16
  edi : BitVec 32

/-- `regs` before the call, with the buffer at the address `e820`. -/
def request (e820 : BitVec 32) (cont : BitVec 32) : Request where
  eax := 0xe820
  ebx := cont
  ecx := 20
  edx := (0x53 : BitVec 32) <<< 24 ||| (0x4d : BitVec 32) <<< 16 ||| (0x41 : BitVec 32) <<< 8 |||
    0x50
  es := (e820 >>> 4).setWidth 16
  edi := e820 &&& 0xf

/-- What the program sees of a call: the carry flag, `%ebx`, and the buffer. -/
structure Reply where
  carry : Bool
  ebx : BitVec 32
  buffer : E820

/-- The BIOS, with any state. -/
abbrev Bios (σ : Type) := σ → Request → Reply × σ

/-! ## The output -/

/-- `str` -/
def typeName (type : BitVec 32) : List UInt8 :=
  if type = 1 then ascii "RAM"
  else if type = 2 then ascii "Reserved"
  else if type = 3 then ascii "ACPI Reclaim"
  else if type = 4 then ascii "ACPI NVS memory"
  else if type = 5 then ascii "Unusable"
  else if type = 6 then ascii "Disabled"
  else ascii "Unknown"

/-- `printf("%8.8x%8.8x %8.8x%8.8x %s\n", ...)` -/
def line (e : E820) : List UInt8 :=
  hexText 8 e.baseHi.toNat ++ hexText 8 e.baseLo.toNat ++ 32 ::
    (hexText 8 e.lengthHi.toNat ++ hexText 8 e.lengthLo.toNat ++ 32 :: (typeName e.type ++ [10]))

def heading : List UInt8 := ascii "Base Address     Length           Type\n"

variable {σ : Type} (bios : Bios σ) (e820 : BitVec 32)

/-- The loop, for at most `fuel` calls: the entries printed. -/
def mainLoop : ℕ → σ → BitVec 32 → Option (List E820)
  | 0, _, _ => none
  | fuel + 1, s, cont =>
    let (reply, s) := bios s (request e820 cont)
    if reply.carry then some []
    else if reply.ebx ≠ 0 then (mainLoop fuel s reply.ebx).map (reply.buffer :: ·)
    else some [reply.buffer]

/-- The text printed for some entries. -/
def print (entries : List E820) : List UInt8 := heading ++ (entries.map line).flatten

def main (fuel : ℕ) (s : σ) : Option (List UInt8) := (mainLoop bios e820 fuel s 0).map print

/-! ## What the BIOS serves -/

/-- From a state on, asked with the value `cont`, the BIOS serves a map. -/
inductive Serves : σ → BitVec 32 → List E820 → Prop
  | carry {s : σ} {cont : BitVec 32} : (bios s (request e820 cont)).1.carry = true →
      Serves s cont []
  | last {s : σ} {cont : BitVec 32} : (bios s (request e820 cont)).1.carry = false →
      (bios s (request e820 cont)).1.ebx = 0 →
      Serves s cont [(bios s (request e820 cont)).1.buffer]
  | more {s : σ} {cont : BitVec 32} {rest : List E820} :
      (bios s (request e820 cont)).1.carry = false →
      (bios s (request e820 cont)).1.ebx ≠ 0 →
      Serves (bios s (request e820 cont)).2 (bios s (request e820 cont)).1.ebx rest →
      Serves s cont ((bios s (request e820 cont)).1.buffer :: rest)

variable {bios e820}

theorem mainLoop_iff {s : σ} {cont : BitVec 32} {entries : List E820} :
    (∃ fuel, mainLoop bios e820 fuel s cont = some entries) ↔
      Serves bios e820 s cont entries := by
  constructor
  · rintro ⟨fuel, hStop⟩
    induction fuel generalizing s cont entries with
    | zero => cases hStop
    | succ fuel ih =>
      rw [mainLoop] at hStop
      cases hCarry : (bios s (request e820 cont)).1.carry with
      | true =>
        simp only [hCarry, if_true] at hStop
        cases hStop
        exact .carry hCarry
      | false =>
        simp only [hCarry, if_neg Bool.false_ne_true] at hStop
        by_cases hMore : (bios s (request e820 cont)).1.ebx = 0
        · rw [if_neg (not_not.mpr hMore)] at hStop
          cases hStop
          exact .last hCarry hMore
        · rw [if_pos hMore, Option.map_eq_some_iff] at hStop
          obtain ⟨rest, hRest, rfl⟩ := hStop
          exact .more hCarry hMore (ih hRest)
  · intro hServes
    induction hServes with
    | carry hCarry => exact ⟨1, by simp [mainLoop, hCarry]⟩
    | last hCarry hLast => exact ⟨1, by simp [mainLoop, hCarry, hLast]⟩
    | more hCarry hMore _ ih =>
      obtain ⟨fuel, hRest⟩ := ih
      refine ⟨fuel + 1, ?_⟩
      rw [mainLoop]
      simp only [hCarry, if_neg Bool.false_ne_true, if_pos hMore, hRest, Option.map_some]

/-! ## Reading the text back -/

/-- The kinds of memory that the BIOS tells apart by number. -/
inductive Kind
  | ram
  | reserved
  | acpiReclaim
  | acpiNvs
  | unusable
  | disabled
  | unknown
  deriving DecidableEq

/-- The kind of a number. -/
def Kind.ofType (type : BitVec 32) : Kind :=
  match type.toNat with
  | 1 => .ram
  | 2 => .reserved
  | 3 => .acpiReclaim
  | 4 => .acpiNvs
  | 5 => .unusable
  | 6 => .disabled
  | _ => .unknown

/-- The kind that a reader takes a name for. -/
def readKind (name : List UInt8) : Option Kind :=
  ([(ascii "RAM", Kind.ram), (ascii "Reserved", .reserved), (ascii "ACPI Reclaim", .acpiReclaim),
    (ascii "ACPI NVS memory", .acpiNvs), (ascii "Unusable", .unusable),
    (ascii "Disabled", .disabled), (ascii "Unknown", .unknown)].find? (·.1 = name)).map Prod.snd

/-- A line of the text: two numbers of 16 digits, and a kind. -/
def readLine (text : List UInt8) : ℕ × ℕ × Option Kind :=
  (hexDigitsValue (text.take 16), hexDigitsValue ((text.drop 17).take 16),
    readKind ((text.drop 34).takeWhile (· ≠ 10)))

/-- The lines behind the heading. -/
def readMap (text : List UInt8) : List (ℕ × ℕ × Option Kind) :=
  (lines 10 text).tail.map readLine

/-- The row of an entry. -/
def row (e : E820) : ℕ × ℕ × Option Kind :=
  (e.base.toNat, e.length.toNat, some (Kind.ofType e.type))

theorem typeName_not_mem (type : BitVec 32) : (10 : UInt8) ∉ typeName type := by
  unfold typeName
  repeat' split
  all_goals decide

/-- The name printed is that of the kind. -/
theorem readKind_typeName (type : BitVec 32) :
    readKind (typeName type) = some (Kind.ofType type) := by
  have hNumber (v : BitVec 32) : type = v ↔ type.toNat = v.toNat := BitVec.toNat_inj.symm
  unfold typeName Kind.ofType
  simp only [hNumber]
  generalize type.toNat = n
  split_ifs with h₁ h₂ h₃ h₄ h₅ h₆
  · subst h₁
    rfl
  · subst h₂
    rfl
  · subst h₃
    rfl
  · subst h₄
    rfl
  · subst h₅
    rfl
  · subst h₆
    rfl
  · split
    · exact absurd rfl h₁
    · exact absurd rfl h₂
    · exact absurd rfl h₃
    · exact absurd rfl h₄
    · exact absurd rfl h₅
    · exact absurd rfl h₆
    · rfl

theorem hexDigitsValue_pair (hi lo : BitVec 32) :
    hexDigitsValue (hexText 8 hi.toNat ++ hexText 8 lo.toNat) = (hi ++ lo).toNat := by
  have hHi : hi.toNat % 16 ^ 8 = hi.toNat := Nat.mod_eq_of_lt hi.isLt
  have hLo : lo.toNat % 16 ^ 8 = lo.toNat := Nat.mod_eq_of_lt lo.isLt
  rw [hexDigitsValue_append, hexDigitsValue_hexText, hexDigitsValue_hexText, hexText_length, hHi,
    hLo, BitVec.toNat_append, ← Nat.shiftLeft_add_eq_or_of_lt lo.isLt, Nat.shiftLeft_eq]
  rfl

/-- The columns of a line. -/
theorem readLine_columns {a b kind : List UInt8} (ha : a.length = 16) (hb : b.length = 16)
    (hKind : (10 : UInt8) ∉ kind) :
    readLine (a ++ 32 :: (b ++ 32 :: (kind ++ [10]))) =
      (hexDigitsValue a, hexDigitsValue b, readKind kind) := by
  have hFirst : (a ++ 32 :: (b ++ 32 :: (kind ++ [10]))).take 16 = a := List.take_left' ha
  have hSecond : (a ++ 32 :: (b ++ 32 :: (kind ++ [10]))).drop 17 =
      b ++ 32 :: (kind ++ [10]) := by
    rw [List.append_cons]
    exact List.drop_left' (by rw [List.length_append, ha]; rfl)
  have hThird : (a ++ 32 :: (b ++ 32 :: (kind ++ [10]))).drop 34 = kind ++ [10] := by
    rw [← List.drop_drop (i := 17) (j := 17), hSecond, List.append_cons]
    exact List.drop_left' (by rw [List.length_append, hb]; rfl)
  have hEnd : (kind ++ [10]).takeWhile (· ≠ 10) = kind := by
    rw [List.takeWhile_append_of_pos]
    · simp
    · intro c hc
      have hOther : c ≠ 10 := fun hEqual => hKind (hEqual ▸ hc)
      simpa using hOther
  rw [readLine, hFirst, hSecond, List.take_left' hb, hThird, hEnd]

theorem readLine_line (e : E820) : readLine (line e) = row e := by
  rw [line, readLine_columns (by simp) (by simp) (typeName_not_mem _), hexDigitsValue_pair,
    hexDigitsValue_pair, readKind_typeName]
  rfl

theorem isLine_append_newline {text : List UInt8} (hText : (10 : UInt8) ∉ text) :
    IsLine 10 (text ++ [10]) ∧ Complete 10 (text ++ [10]) :=
  ⟨isLine_of_not_mem hText, complete_append_eol text⟩

theorem hexText_not_mem (n v : ℕ) : (10 : UInt8) ∉ hexText n v := by
  intro hMem
  have hDigit := hexText_isxdigit _ hMem
  revert hDigit
  decide

theorem isLine_line (e : E820) : IsLine 10 (line e) ∧ Complete 10 (line e) := by
  have hLine : line e = (hexText 8 e.baseHi.toNat ++ hexText 8 e.baseLo.toNat ++ 32 ::
      (hexText 8 e.lengthHi.toNat ++ hexText 8 e.lengthLo.toNat ++ 32 :: typeName e.type)) ++
        [10] := by
    simp [line]
  rw [hLine]
  apply isLine_append_newline
  simp [hexText_not_mem, typeName_not_mem]

theorem isLine_heading : IsLine 10 heading ∧ Complete 10 heading := by
  have hHeading : heading = ascii "Base Address     Length           Type" ++ [10] := by decide
  rw [hHeading]
  exact isLine_append_newline (by decide)

theorem readMap_print (entries : List E820) : readMap (print entries) = entries.map row := by
  have hLines : lines 10 (print entries) = heading :: entries.map line := by
    show lines 10 (heading :: entries.map line).flatten = _
    apply lines_flatten
    intro l hl
    rcases List.mem_cons.mp hl with rfl | hl
    · exact isLine_heading
    · obtain ⟨e, -, rfl⟩ := List.mem_map.mp hl
      exact isLine_line e
  rw [readMap, hLines, List.tail_cons, List.map_map]
  exact List.map_congr_left fun e _ => readLine_line e

/-- The program ends exactly when the BIOS serves a map, and this map is what a reader of the
output gets. -/
theorem main_iff (bios : Bios σ) (e820 : BitVec 32) (s : σ) (rows : List (ℕ × ℕ × Option Kind)) :
    (∃ fuel out, main bios e820 fuel s = some out ∧ readMap out = rows) ↔
      ∃ entries, Serves bios e820 s 0 entries ∧ entries.map row = rows := by
  constructor
  · rintro ⟨fuel, out, hMain, rfl⟩
    obtain ⟨entries, hStop, rfl⟩ := Option.map_eq_some_iff.mp hMain
    exact ⟨entries, mainLoop_iff.mp ⟨fuel, hStop⟩, (readMap_print entries).symm⟩
  · rintro ⟨entries, hServes, rfl⟩
    obtain ⟨fuel, hStop⟩ := mainLoop_iff.mpr hServes
    exact ⟨fuel, print entries, by rw [main, hStop, Option.map_some], readMap_print entries⟩

/-- A BIOS that keeps its map in a table, and asks for the next subscript. -/
def tableBios (table : List E820) : Bios Unit := fun s req =>
  match table[req.ebx.toNat]? with
  | none => (⟨true, req.ebx, ⟨0, 0, 0, 0, 0⟩⟩, s)
  | some e => (⟨false, if req.ebx.toNat + 1 < table.length then req.ebx + 1 else 0, e⟩, s)

theorem tableBios_reply {table : List E820} (hSize : table.length < 2 ^ 32) (e820 : BitVec 32)
    {i : ℕ} (hInside : i < table.length) :
    tableBios table () (request e820 (BitVec.ofNat 32 i)) =
      (⟨false, if i + 1 < table.length then BitVec.ofNat 32 (i + 1) else 0, table[i]⟩, ()) := by
  have hIndex : (BitVec.ofNat 32 i).toNat = i := by
    rw [BitVec.toNat_ofNat]
    exact Nat.mod_eq_of_lt (by omega)
  simp only [tableBios, request, hIndex, List.getElem?_eq_getElem hInside, BitVec.ofNat_add]
  rfl

/-- It serves what is in the table from the subscript on. -/
theorem serves_tableBios {table : List E820} (hSize : table.length < 2 ^ 32) (e820 : BitVec 32)
    {i : ℕ} (hInside : i < table.length) :
    Serves (tableBios table) e820 () (BitVec.ofNat 32 i) (table.drop i) := by
  induction hLeft : table.length - i generalizing i with
  | zero => omega
  | succ k ih =>
    have hReply := tableBios_reply hSize e820 hInside
    rw [List.drop_eq_getElem_cons hInside]
    by_cases hMore : i + 1 < table.length
    · have hNonzero : BitVec.ofNat 32 (i + 1) ≠ 0 := by
        intro hZero
        have hIndex : (i + 1) % 2 ^ 32 = 0 := congrArg BitVec.toNat hZero
        omega
      have hServes := @Serves.more _ (tableBios table) e820 () (BitVec.ofNat 32 i)
        (table.drop (i + 1))
      rw [hReply, if_pos hMore] at hServes
      exact hServes rfl hNonzero (ih hMore (by omega))
    · have hServes := @Serves.last _ (tableBios table) e820 () (BitVec.ofNat 32 i)
      rw [hReply, if_neg hMore] at hServes
      rw [List.drop_eq_nil_of_le (by omega)]
      exact hServes rfl rfl

/-- The BIOS is given the address of the buffer, which is one of real mode. -/
theorem request_buffer {e820 : BitVec 32} (hReal : e820.toNat < 2 ^ 20) (cont : BitVec 32) :
    (request e820 cont).es.toNat * 16 + (request e820 cont).edi.toNat = e820.toNat := by
  have hSegment : (request e820 cont).es.toNat = e820.toNat / 16 := by
    show ((e820 >>> 4).setWidth 16).toNat = _
    rw [BitVec.toNat_setWidth, BitVec.toNat_ushiftRight, Nat.shiftRight_eq_div_pow,
      Nat.mod_eq_of_lt (by omega)]
  have hOffset : (request e820 cont).edi.toNat = e820.toNat % 16 := by
    show (e820 &&& 0xf).toNat = _
    rw [BitVec.toNat_and]
    exact Nat.and_two_pow_sub_one_eq_mod _ 4
  omega

end DebugCode.BiosMap
