import DebugCode.Lib.CString
import DebugCode.Lib.Memory
import Mathlib.Data.List.GetD

/-!
# The variable record

`uefivar.c`: the packed record `uefi_var` that the files below `/sys/firmware/efi/vars` are
read and written in, the conversions between its 16-bit name and C strings, and the record
`uefi_var_set` writes. A record is the memory it lies in; its fields are read at their
offsets.

* `varname_uefiVarRecord`: the units of a converted name.
* `uefiVarSet_encodes`: the record written reads back as what was asked for.
-/

namespace DebugCode.Uefivar

open Lib

/-! ## The packed structure -/

/-- `sizeof(uefi_var)` -/
def sizeofUefiVar : Nat := 2084

namespace UefiVar

/-- `varname[k]`, also behind the end of the array. -/
def varname (var : Memory) (k : Nat) : Nat := var.loadLe (2 * k) 2

def guid (var : Memory) (i : Fin 16) : UInt8 := var (1024 + i)

def datalen (var : Memory) : Nat := var.loadLe 1040 8

def data (var : Memory) (i : Nat) : UInt8 := var (1048 + i)

def attributes (var : Memory) : Nat := var.loadLe 2080 4

end UefiVar

/-- `memset(var, 0, sizeof(uefi_var))` -/
def clear (var : Memory) : Memory := var.store 0 (List.replicate sizeofUefiVar 0)

/-- The bytes `write` is given. -/
def recordBytes (var : Memory) : List UInt8 := var.load 0 sizeofUefiVar

/-! ## The functions on strings -/

/-- `*src & 0xff`: a `char` is signed, and the mask takes its sign extension off. -/
def charMask (c : UInt8) : Nat := (c.toBitVec.signExtend 32 &&& 0xff#32).toNat

/-- `while ((*src) && (i > 1))`: the bytes written in front of the final `NUL`. -/
def uefiStr16ToStr (src : Nat → Nat) : Nat → Nat → List UInt8
  | 0, _ => []
  | i + 1, k =>
    if src k ≠ 0 ∧ 1 < i + 1 then
      UInt8.ofNat (src k &&& 0xff) :: uefiStr16ToStr src i (k + 1)
    else []

/-- The loop over the string, with the terminator behind it, from offset `dst` on. -/
def uefiStrToStr16 (var : Memory) (dst : Nat) : Nat → List UInt8 → Memory
  | _, [] => var.storeLe dst 2 0
  | i, c :: src =>
    if 1 < i then uefiStrToStr16 (var.storeLe dst 2 (charMask c)) (dst + 2) (i - 1) src
    else var.storeLe dst 2 0

def uefiGetVarname (len : Nat) (var : Memory) : CString :=
  CString.ofBuffer (uefiStr16ToStr (UefiVar.varname var) len 0)

/-- The `printf` of the bytes of a GUID. -/
def guidText (guid : Fin 16 → UInt8) : List UInt8 :=
  hex2 (guid 3) ++ hex2 (guid 2) ++ hex2 (guid 1) ++ hex2 (guid 0) ++ ascii "-" ++
  hex2 (guid 5) ++ hex2 (guid 4) ++ ascii "-" ++ hex2 (guid 7) ++ hex2 (guid 6) ++ ascii "-" ++
  hex2 (guid 8) ++ hex2 (guid 9) ++ ascii "-" ++ hex2 (guid 10) ++ hex2 (guid 11) ++
  hex2 (guid 12) ++ hex2 (guid 13) ++ hex2 (guid 14) ++ hex2 (guid 15)

/-- The order in which the bytes are spelled, in the text printed and in the text read. -/
def guidOrder : List (Fin 16) := [3, 2, 1, 0, 5, 4, 7, 6, 8, 9, 10, 11, 12, 13, 14, 15]

def guidToStr (guid : Fin 16 → UInt8) (guidStrLen : Nat) : CString :=
  if 36 < guidStrLen then snprintf guidStrLen (CString.ofBuffer (guidText guid))
  else CString.ofBuffer []

/-! ## The record that is set -/

/-- The record `uefi_var_set` fills in; `var` is what the stack held before. -/
def uefiVarRecord (var : Memory) (guid : Fin 16 → UInt8) (name value : CString) : Memory :=
  let var := clear var
  let len := if 1024 < value.strlen then 1024 else value.strlen
  let var := uefiStrToStr16 var 0 512 name.bytes
  let var := var.store 1024 (List.ofFn guid)
  let var := var.store 1048 (strncpy value 1024)
  let var := var.storeLe 1040 8 len
  let var := var.storeLe 2072 8 1
  -- `VAR_NON_VOLATILE | VAR_BOOTSERVICE_ACCESS | VAR_RUNTIME_ACCESS`
  var.storeLe 2080 4 (1 ||| 2 ||| 4)

/-- What `uefi_var_set` writes to `new_var` and to `stderr`, and whether it exits. -/
structure SetResult where
  written : Option (List UInt8)
  stderr : List UInt8
  exits : Bool

/-- `newVar` is the result of `write`, or `none` when `new_var` cannot be opened. -/
def uefiVarSet (newVar : Option Int) (var : Memory) (guid : Fin 16 → UInt8)
    (name value : CString) : SetResult :=
  let var := uefiVarRecord var guid name value
  match newVar with
  | none => ⟨none, ascii "Cannot open /sys/firmware/efi/vars/new_var\n", true⟩
  | some n =>
    if n < 0 then
      ⟨some (recordBytes var), ascii "Cannot set variable " ++ name.bytes ++ ascii "\n", true⟩
    else ⟨some (recordBytes var), [], false⟩

/-! ## The units of a name -/

theorem charMask_eq (c : UInt8) : charMask c = c.toNat := by
  have hAll : ∀ b : BitVec 8, (b.signExtend 32 &&& 0xff#32).toNat = b.toNat := by decide +kernel
  exact hAll c.toBitVec

theorem charMask_unit (c : UInt8) : UInt8.ofNat (c.toNat &&& 0xff) = c := by
  have hMask : c.toNat &&& 0xff = c.toNat :=
    (Nat.and_two_pow_sub_one_eq_mod c.toNat 8).trans (Nat.mod_eq_of_lt c.toNat_lt)
  rw [hMask, UInt8.ofNat_toNat]

/-- Units that hold a C string are read back while there is room. -/
theorem uefiStr16ToStr_eq {src : Nat → Nat} {i k : Nat} {bs : List UInt8} (hNul : 0 ∉ bs)
    (hUnits : ∀ j ≤ bs.length, src (k + j) = (bs.getD j 0).toNat) (hRoom : bs.length < i) :
    uefiStr16ToStr src i k = bs := by
  obtain ⟨i, rfl⟩ := Nat.exists_eq_add_of_lt hRoom
  induction bs generalizing k with
  | nil =>
    have hEnd : src k = 0 := hUnits 0 (Nat.le_refl _)
    rw [uefiStr16ToStr, if_neg fun h => h.1 hEnd]
  | cons c bs ih =>
    have hUnit : src k = c.toNat := hUnits 0 (Nat.zero_le _)
    have hNe : src k ≠ 0 := by
      rw [hUnit]
      intro hZero
      have hByte : c = 0 := UInt8.toNat.inj hZero
      exact hNul (hByte ▸ List.mem_cons_self)
    have hRest : ∀ j ≤ bs.length, src (k + 1 + j) = (bs.getD j 0).toNat := by
      intro j hj
      rw [Nat.add_assoc, Nat.add_comm 1 j]
      exact hUnits (j + 1) (Nat.succ_le_succ hj)
    rw [uefiStr16ToStr, if_pos ⟨hNe, by simp⟩, hUnit, charMask_unit, List.length_cons,
      Nat.succ_add, ih (fun h => hNul (List.mem_cons_of_mem _ h)) hRest (by omega)]

/-- The conversion writes at most `i` units from `dst` on. -/
theorem uefiStrToStr16_outside {i dst a : Nat} (hi : 0 < i) (h : a < dst ∨ dst + 2 * i ≤ a)
    (src : List UInt8) (var : Memory) : uefiStrToStr16 var dst i src a = var a := by
  have hUnit : ∀ v, var.storeLe dst 2 v a = var a := by
    intro v
    apply Memory.store_outside
    rw [leBytes_length]
    omega
  induction src generalizing var dst i with
  | nil => exact hUnit 0
  | cons c src ih =>
    rw [uefiStrToStr16]
    split
    · rename_i hMore
      rw [ih (by omega) (by omega), hUnit]
      intro v
      apply Memory.store_outside
      rw [leBytes_length]
      omega
    · exact hUnit 0

theorem loadLe_terminator {dst i k : Nat} {var : Memory} (hk : k < i)
    (hZero : ∀ a, dst ≤ a → a < dst + 2 * i → var a = 0) :
    (var.storeLe dst 2 0).loadLe (dst + 2 * k) 2 = 0 := by
  cases k with
  | zero => exact Memory.loadLe_storeLe_same var dst 2 0
  | succ k =>
    rw [Memory.loadLe_storeLe_disjoint (by omega)]
    apply Memory.loadLe_eq_zero_iff.mpr
    intro j hj
    exact hZero _ (by omega) (by omega)

/-- The rest of the conversion does not touch the unit written first. -/
theorem loadLe_uefiStrToStr16_first {dst i : Nat} (hi : 1 < i) (c : UInt8) (src : List UInt8)
    (var : Memory) : (uefiStrToStr16 var dst i (c :: src)).loadLe dst 2 = c.toNat := by
  have hSame : (uefiStrToStr16 (var.storeLe dst 2 (charMask c)) (dst + 2) (i - 1) src).loadLe
      dst 2 = (var.storeLe dst 2 (charMask c)).loadLe dst 2 := by
    unfold Memory.loadLe
    rw [Memory.load_congr]
    intro j hj
    exact uefiStrToStr16_outside (by omega) (by omega) src _
  have hByte := c.toNat_lt
  rw [uefiStrToStr16, if_pos hi, hSame, Memory.loadLe_storeLe_same, charMask_eq,
    Nat.mod_eq_of_lt (by omega)]

/-- The units of a converted string that fits, with the terminator, over any memory. -/
theorem loadLe_uefiStrToStr16_of_fits {i k : Nat} {src : List UInt8}
    (hFits : src.length < i) (hk : k ≤ src.length) (var : Memory) (dst : Nat) :
    (uefiStrToStr16 var dst i src).loadLe (dst + 2 * k) 2 = (src.getD k 0).toNat := by
  induction src generalizing var dst i k with
  | nil =>
    obtain rfl : k = 0 := Nat.le_zero.mp hk
    exact Memory.loadLe_storeLe_same var dst 2 0
  | cons c src ih =>
    rw [List.length_cons] at hFits hk
    cases k with
    | zero => exact loadLe_uefiStrToStr16_first (by omega) c src var
    | succ k =>
      rw [uefiStrToStr16, if_pos (by omega), Nat.mul_succ, Nat.add_comm (2 * k),
        ← Nat.add_assoc, ih (by omega) (by omega)]
      rfl

/-- The units of a converted name: its first `i - 1` bytes, and zero behind them. -/
theorem loadLe_uefiStrToStr16 {dst i k : Nat} (hk : k < i) (src : List UInt8) {var : Memory}
    (hZero : ∀ a, dst ≤ a → a < dst + 2 * i → var a = 0) :
    (uefiStrToStr16 var dst i src).loadLe (dst + 2 * k) 2 =
      ((src.take (i - 1)).getD k 0).toNat := by
  induction src generalizing var dst i k with
  | nil =>
    rw [uefiStrToStr16, loadLe_terminator hk hZero]
    simp
  | cons c src ih =>
    by_cases hMore : 1 < i
    · obtain ⟨n, hn⟩ : ∃ n, i - 1 = n + 1 := ⟨i - 2, by omega⟩
      rw [hn, List.take_succ_cons]
      cases k with
      | zero => exact loadLe_uefiStrToStr16_first hMore c src var
      | succ k =>
        rw [uefiStrToStr16, if_pos hMore, hn]
        have hRest : ∀ a, dst + 2 ≤ a → a < dst + 2 + 2 * (n + 1) →
            var.storeLe dst 2 (charMask c) a = 0 := by
          intro a hLow hHigh
          rw [Memory.storeLe, Memory.store_outside _ (by rw [leBytes_length]; omega)]
          exact hZero a (by omega) (by omega)
        have hUnit := ih (k := k) (by omega) hRest
        rw [Nat.mul_succ, Nat.add_comm (2 * k), ← Nat.add_assoc, hUnit]
        rfl
    · have hOne : i - 1 = 0 := by omega
      rw [uefiStrToStr16, if_neg hMore, loadLe_terminator hk hZero, hOne]
      simp

/-! ## The fields of the record -/

section

variable (var : Memory) (guid : Fin 16 → UInt8) (name value : CString)

theorem clear_zero {i : Nat} (hi : i < sizeofUefiVar) : clear var i = 0 := by
  rw [clear, Memory.store_zero_inside (by rwa [List.length_replicate]), List.getElem_replicate]

theorem varname_uefiVarRecord {k : Nat} (hk : k < 512) :
    UefiVar.varname (uefiVarRecord var guid name value) k =
      ((name.bytes.take 511).getD k 0).toNat := by
  have hZero : ∀ a, 0 ≤ a → a < 0 + 2 * 512 → clear var a = 0 :=
    fun a _ ha => clear_zero var (by unfold sizeofUefiVar; omega)
  have hName := loadLe_uefiStrToStr16 hk name.bytes hZero
  rw [Nat.zero_add] at hName
  unfold UefiVar.varname uefiVarRecord
  rw [Memory.loadLe_storeLe_disjoint (by omega), Memory.loadLe_storeLe_disjoint (by omega),
    Memory.loadLe_storeLe_disjoint (by omega), Memory.loadLe_store_disjoint _ (by omega),
    Memory.loadLe_store_disjoint _ (by omega), hName]

theorem guid_uefiVarRecord : UefiVar.guid (uefiVarRecord var guid name value) = guid := by
  funext i
  have hi := i.isLt
  unfold UefiVar.guid uefiVarRecord
  rw [Memory.storeLe, Memory.storeLe, Memory.storeLe, Memory.store_outside _ (by simp; omega),
    Memory.store_outside _ (by simp; omega), Memory.store_outside _ (by simp; omega),
    Memory.store_outside _ (by omega), Memory.store_inside _ (by rwa [List.length_ofFn]),
    List.getElem_ofFn]

theorem datalen_uefiVarRecord :
    UefiVar.datalen (uefiVarRecord var guid name value) = min value.strlen 1024 := by
  unfold UefiVar.datalen uefiVarRecord
  rw [Memory.loadLe_storeLe_disjoint (by omega), Memory.loadLe_storeLe_disjoint (by omega),
    Memory.loadLe_storeLe_same]
  split <;> omega

theorem attributes_uefiVarRecord :
    UefiVar.attributes (uefiVarRecord var guid name value) = 7 :=
  Memory.loadLe_storeLe_same _ 2080 4 7

theorem data_uefiVarRecord {i : Nat} (hi : i < 1024) :
    UefiVar.data (uefiVarRecord var guid name value) i = value.bytes.getD i 0 := by
  unfold UefiVar.data uefiVarRecord
  rw [Memory.storeLe, Memory.storeLe, Memory.storeLe, Memory.store_outside _ (by simp; omega),
    Memory.store_outside _ (by simp; omega), Memory.store_outside _ (by simp),
    Memory.store_inside _ (by simpa using hi)]
  have hByte := strncpy_getElem? value hi
  rw [List.getElem?_eq_getElem (by simpa using hi)] at hByte
  exact Option.some.inj hByte

end

/-! ## The record reads back -/

/-- The record holds the name, cut to its first 511 bytes, and the value, cut to its first
1024, and is zero behind them. -/
structure Encodes (guid : Fin 16 → UInt8) (name value : CString) (var : Memory) : Prop where
  varname : uefiGetVarname 513 var = name.take (min name.strlen 511)
  varname_end : ∀ k < 512, min name.strlen 511 ≤ k → UefiVar.varname var k = 0
  guid : UefiVar.guid var = guid
  datalen : UefiVar.datalen var = min value.strlen 1024
  data : ∀ i < min value.strlen 1024, value.bytes[i]? = some (UefiVar.data var i)
  data_end : ∀ i < 1024, min value.strlen 1024 ≤ i → UefiVar.data var i = 0

theorem uefiGetVarname_eq {var : Memory} {len : Nat} {s : CString}
    (hUnits : ∀ k ≤ s.strlen, UefiVar.varname var k = (s.bytes.getD k 0).toNat)
    (hRoom : s.strlen < len) : uefiGetVarname len var = s := by
  rw [uefiGetVarname, uefiStr16ToStr_eq s.nul_free (fun k hk => ?_) hRoom,
    CString.ofBuffer_bytes]
  rw [Nat.zero_add]
  exact hUnits k hk

theorem uefiVarRecord_encodes (var : Memory) (guid : Fin 16 → UInt8) (name value : CString) :
    Encodes guid name value (uefiVarRecord var guid name value) := by
  have hName : name.bytes.take 511 = name.bytes.take (min name.strlen 511) := by
    rw [Nat.min_comm]
    exact List.take_eq_take_min
  have hLength : (name.take (min name.strlen 511)).strlen = min name.strlen 511 := by
    unfold CString.strlen
    rw [CString.bytes_take, List.length_take]
    omega
  constructor
  · apply uefiGetVarname_eq
    · intro k hk
      rw [varname_uefiVarRecord var guid name value (by omega), hName]
      rfl
    · omega
  · intro k hk hEnd
    have hOut : (name.bytes.take (min name.strlen 511)).getD k 0 = 0 :=
      List.getD_eq_default _ _ (hLength.trans_le hEnd)
    rw [varname_uefiVarRecord var guid name value hk, hName, hOut]
    rfl
  · exact guid_uefiVarRecord var guid name value
  · exact datalen_uefiVarRecord var guid name value
  · intro i hi
    have hInside : i < value.bytes.length := by
      unfold CString.strlen at hi
      omega
    rw [data_uefiVarRecord var guid name value (by omega), List.getD_eq_getElem _ _ hInside,
      List.getElem?_eq_getElem hInside]
  · intro i hi hEnd
    rw [data_uefiVarRecord var guid name value hi]
    apply List.getD_eq_default
    unfold CString.strlen at hEnd
    omega

theorem uefiVarSet_written (newVar : Option Int) (var : Memory) (guid : Fin 16 → UInt8)
    (name value : CString) : (uefiVarSet newVar var guid name value).written =
      newVar.map fun _ => recordBytes (uefiVarRecord var guid name value) := by
  unfold uefiVarSet
  cases newVar with
  | none => rfl
  | some n =>
    simp only [Option.map_some]
    split <;> rfl

/-- What `uefi_var_set` writes, when it can, is a record of what was asked for. -/
theorem uefiVarSet_encodes (var : Memory) (guid : Fin 16 → UInt8) (name value : CString) :
    ∃ record, Encodes guid name value record ∧ ∀ newVar,
      (uefiVarSet newVar var guid name value).written =
        newVar.map fun _ => recordBytes record :=
  ⟨uefiVarRecord var guid name value, uefiVarRecord_encodes var guid name value,
    fun newVar => uefiVarSet_written newVar var guid name value⟩

end DebugCode.Uefivar
