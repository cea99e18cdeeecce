import DebugCode.Uefivar.Record

/-!
# Variable names in a listing

`uefi_var_ls` shows the 16-bit name of a variable as a C string of 8-bit characters: it
keeps the low byte of every unit. A unit above `0xff` is shown as another character, or
ends the name where its low byte is zero.

* `uefiGetVarname_holds`: the name shown.
* `name_round_trip`: which names come back when what is shown is converted to 16 bits again.
-/

namespace DebugCode.Uefivar

open Lib

/-- A zero-terminated name that has its terminator inside `varname[512]`. -/
structure Name where
  units : List UInt16
  units_ne_zero : 0 ∉ units
  length_le : units.length ≤ 511

/-- The name that the record in memory has: its units and the terminator. -/
def Name.Holds (name : Name) (var : Memory) : Prop :=
  ∀ k ≤ name.units.length, UefiVar.varname var k = (name.units.getD k 0).toNat

/-- The units that fit into a character. -/
def Name.Narrow (name : Name) : Prop := ∀ u ∈ name.units, u ≤ 0xff

/-- `*src & 0xff` -/
def lowByte (u : UInt16) : UInt8 := UInt8.ofNat (u.toNat &&& 0xff)

theorem lowByte_toNat (u : UInt16) : (lowByte u).toNat = u.toNat % 256 := by
  rw [lowByte, UInt8.toNat_ofNat', Nat.and_two_pow_sub_one_eq_mod u.toNat 8, Nat.mod_mod]

theorem lowByte_toNat_iff (u : UInt16) : (lowByte u).toNat = u.toNat ↔ u ≤ 0xff := by
  have hLe : u ≤ 0xff ↔ u.toNat ≤ 255 := UInt16.le_iff_toNat_le
  rw [lowByte_toNat, hLe]
  omega

theorem Name.getElem_ne_zero (name : Name) {k : Nat} (hk : k < name.units.length) :
    (name.units.getD k 0).toNat ≠ 0 := by
  rw [List.getD_eq_getElem _ _ hk]
  intro hZero
  have hUnit : name.units[k] = 0 := UInt16.toNat.inj hZero
  exact name.units_ne_zero (hUnit ▸ List.getElem_mem hk)

/-! ## The name shown -/

/-- The loop writes the low byte of every unit, while there is room. -/
theorem uefiStr16ToStr_lowBytes {src : Nat → Nat} {i k : Nat} {us : List UInt16}
    (hNe : 0 ∉ us) (hUnits : ∀ j ≤ us.length, src (k + j) = (us.getD j 0).toNat)
    (hRoom : us.length < i) : uefiStr16ToStr src i k = us.map lowByte := by
  obtain ⟨i, rfl⟩ := Nat.exists_eq_add_of_lt hRoom
  induction us generalizing k with
  | nil =>
    have hEnd : src k = 0 := hUnits 0 (Nat.le_refl _)
    rw [uefiStr16ToStr, if_neg fun h => h.1 hEnd]
    rfl
  | cons u us ih =>
    have hUnit : src k = u.toNat := hUnits 0 (Nat.zero_le _)
    have hTest : src k ≠ 0 := by
      rw [hUnit]
      intro hZero
      have hHead : u = 0 := UInt16.toNat.inj hZero
      exact hNe (hHead ▸ List.mem_cons_self)
    have hRest : ∀ j ≤ us.length, src (k + 1 + j) = (us.getD j 0).toNat := by
      intro j hj
      rw [Nat.add_assoc, Nat.add_comm 1 j]
      exact hUnits (j + 1) (Nat.succ_le_succ hj)
    rw [uefiStr16ToStr, if_pos ⟨hTest, by simp⟩, hUnit, List.length_cons, Nat.succ_add,
      ih (fun h => hNe (List.mem_cons_of_mem _ h)) hRest (by omega)]
    rfl

/-- What `uefi_var_ls` shows for a name. -/
theorem uefiGetVarname_holds {name : Name} {src : Memory} (hHolds : name.Holds src) :
    uefiGetVarname 513 src = CString.ofBuffer (name.units.map lowByte) := by
  have hLength := name.length_le
  have hUnits : ∀ j ≤ name.units.length,
      UefiVar.varname src (0 + j) = (name.units.getD j 0).toNat := by
    intro j hj
    rw [Nat.zero_add]
    exact hHolds j hj
  rw [uefiGetVarname, uefiStr16ToStr_lowBytes name.units_ne_zero hUnits (by omega)]

/-! ## Back to 16 bits -/

/-- What was shown, converted to 16 bits again, over any memory. -/
def shownAgain (dst : Memory) (s : CString) : Memory := uefiStrToStr16 dst 0 512 s.bytes

theorem varname_shownAgain {s : CString} (hFits : s.strlen < 512) {k : Nat} (hk : k ≤ s.strlen)
    (dst : Memory) : UefiVar.varname (shownAgain dst s) k = (s.bytes.getD k 0).toNat := by
  rw [← loadLe_uefiStrToStr16_of_fits hFits hk dst 0, Nat.zero_add]
  rfl

/-- The bytes shown are low bytes of the units, up to the first that is zero. -/
theorem shown_isPrefix (name : Name) :
    (CString.ofBuffer (name.units.map lowByte)).bytes <+: name.units.map lowByte :=
  List.takeWhile_prefix _

theorem shown_length_le (name : Name) :
    (CString.ofBuffer (name.units.map lowByte)).strlen ≤ name.units.length := by
  have hLe := (shown_isPrefix name).length_le
  rwa [List.length_map] at hLe

theorem shown_of_narrow {name : Name} (hNarrow : name.Narrow) :
    (CString.ofBuffer (name.units.map lowByte)).bytes = name.units.map lowByte := by
  apply List.takeWhile_eq_self_iff.mpr
  intro c hc
  obtain ⟨u, hu, rfl⟩ := List.mem_map.mp hc
  have hUnit := (lowByte_toNat_iff u).mpr (hNarrow u hu)
  have hNe : lowByte u ≠ 0 := by
    intro hZero
    rw [hZero] at hUnit
    have hNul : u = 0 := UInt16.toNat.inj hUnit.symm
    exact name.units_ne_zero (hNul ▸ hu)
  simpa using hNe

/-- A name of narrow units comes back. -/
theorem holds_shownAgain {name : Name} (hNarrow : name.Narrow) (dst : Memory) :
    name.Holds (shownAgain dst (CString.ofBuffer (name.units.map lowByte))) := by
  have hLength := name.length_le
  have hBytes := shown_of_narrow hNarrow
  have hStrlen : (CString.ofBuffer (name.units.map lowByte)).strlen = name.units.length := by
    rw [CString.strlen, hBytes, List.length_map]
  intro k hk
  rw [varname_shownAgain (by omega) (by omega), hBytes]
  by_cases hInside : k < name.units.length
  · rw [List.getD_eq_getElem _ _ (by rwa [List.length_map]), List.getElem_map,
      List.getD_eq_getElem _ _ hInside]
    exact (lowByte_toNat_iff _).mpr (hNarrow _ (List.getElem_mem hInside))
  · rw [List.getD_eq_default _ _ (by rw [List.length_map]; omega),
      List.getD_eq_default _ _ (by omega)]
    rfl

/-- Only a name of narrow units comes back. -/
theorem narrow_of_holds_shownAgain {name : Name} {dst : Memory}
    (hBack : name.Holds (shownAgain dst (CString.ofBuffer (name.units.map lowByte)))) :
    name.Narrow := by
  have hLength := name.length_le
  have hShort := shown_length_le name
  have hStrlen : (CString.ofBuffer (name.units.map lowByte)).strlen = name.units.length := by
    by_contra hCut
    -- the terminator of what is shown stands where the name goes on
    have hUnit := hBack _ hShort
    rw [varname_shownAgain (by omega) le_rfl, List.getD_eq_default _ _
      (le_refl (CString.ofBuffer (name.units.map lowByte)).strlen)] at hUnit
    exact name.getElem_ne_zero (by omega) hUnit.symm
  have hBytes := (shown_isPrefix name).eq_of_length (by rw [List.length_map]; exact hStrlen)
  intro u hu
  obtain ⟨k, hk, rfl⟩ := List.mem_iff_getElem.mp hu
  have hUnit := hBack k hk.le
  rw [varname_shownAgain (by omega) (by omega), hBytes,
    List.getD_eq_getElem _ _ (by rwa [List.length_map]), List.getElem_map,
    List.getD_eq_getElem _ _ hk] at hUnit
  exact (lowByte_toNat_iff _).mp hUnit

/-- A memory has one name. -/
theorem Name.Holds.unique {name name' : Name} {var : Memory} (hHolds : name.Holds var)
    (hHolds' : name'.Holds var) : name.units = name'.units := by
  have hNotShorter : ∀ {a b : Name}, a.Holds var → b.Holds var →
      ¬ a.units.length < b.units.length := by
    intro a b ha hb hLt
    have hEnd := ha _ le_rfl
    rw [hb _ hLt.le, List.getD_eq_default a.units _ le_rfl] at hEnd
    exact b.getElem_ne_zero hLt hEnd
  have hSame : name.units.length = name'.units.length := by
    have hLow := hNotShorter hHolds hHolds'
    have hHigh := hNotShorter hHolds' hHolds
    omega
  apply List.ext_getElem hSame
  intro k hk hk'
  have hUnit := hHolds k hk.le
  rw [hHolds' k hk'.le, List.getD_eq_getElem _ _ hk, List.getD_eq_getElem _ _ hk'] at hUnit
  exact UInt16.toNat.inj hUnit.symm

/-- What is shown of a name can be converted back exactly when its units are narrow, and
different names of narrow units are shown differently. -/
theorem name_round_trip (name : Name) (src dst : Memory) (hHolds : name.Holds src) :
    (name.Holds (shownAgain dst (uefiGetVarname 513 src)) ↔ name.Narrow) ∧
      ∀ (name' : Name) (src' : Memory), name'.Holds src' → name.Narrow → name'.Narrow →
        uefiGetVarname 513 src = uefiGetVarname 513 src' → name.units = name'.units := by
  rw [uefiGetVarname_holds hHolds]
  constructor
  · exact ⟨narrow_of_holds_shownAgain, fun hNarrow => holds_shownAgain hNarrow dst⟩
  · intro name' src' hHolds' hNarrow hNarrow' hShown
    have hBack := holds_shownAgain hNarrow dst
    rw [hShown, uefiGetVarname_holds hHolds'] at hBack
    exact hBack.unique (holds_shownAgain hNarrow' dst)

/-- The record memory of a name of several units. -/
def unitsRecord (units : List UInt16) : Memory :=
  (List.range units.length).foldl
    (fun var k => var.storeLe (2 * k) 2 (units.getD k 0).toNat) Memory.zero

/-- Two names that begin alike come back, and are not shown alike. -/
theorem name_round_trip_boot :
    let order : Name := ⟨[0x42, 0x6f, 0x6f, 0x74, 0x4f, 0x72, 0x64, 0x65, 0x72], by decide,
      by decide⟩
    let next : Name := ⟨[0x42, 0x6f, 0x6f, 0x74, 0x4e, 0x65, 0x78, 0x74], by decide, by decide⟩
    order.Holds (shownAgain Memory.zero (uefiGetVarname 513 (unitsRecord order.units))) ∧
      next.Holds (shownAgain Memory.zero (uefiGetVarname 513 (unitsRecord next.units))) ∧
      uefiGetVarname 513 (unitsRecord order.units) ≠
        uefiGetVarname 513 (unitsRecord next.units) := by
  intro order next
  have hOrder : order.Holds (unitsRecord order.units) := by unfold Name.Holds; decide +kernel
  have hNext : next.Holds (unitsRecord next.units) := by unfold Name.Holds; decide +kernel
  have hNarrow : order.Narrow := by simp [Name.Narrow, order]
  have hNarrow' : next.Narrow := by simp [Name.Narrow, next]
  obtain ⟨hBack, hOnce⟩ := name_round_trip order _ Memory.zero hOrder
  refine ⟨hBack.mpr hNarrow, (name_round_trip next _ Memory.zero hNext).1.mpr hNarrow', ?_⟩
  intro hShown
  have hUnits := hOnce next _ hNext hNarrow hNarrow' hShown
  revert hUnits
  decide

/-- The record memory of a name of one unit. -/
def unitRecord (u : Nat) : Memory := Memory.zero.storeLe 0 2 u

/-- The name of the one unit `0x141` is shown as `A`, which is the name of `0x41`. -/
theorem name_lost :
    let wide : Name := ⟨[0x141], by decide, by decide⟩
    let letter : Name := ⟨[0x41], by decide, by decide⟩
    wide.Holds (unitRecord 0x141) ∧ letter.Holds (unitRecord 0x41) ∧
      ¬ wide.Holds (shownAgain Memory.zero (uefiGetVarname 513 (unitRecord 0x141))) ∧
      uefiGetVarname 513 (unitRecord 0x141) = uefiGetVarname 513 (unitRecord 0x41) := by
  intro wide letter
  have hWide : wide.Holds (unitRecord 0x141) := by unfold Name.Holds; decide +kernel
  have hLetter : letter.Holds (unitRecord 0x41) := by unfold Name.Holds; decide +kernel
  rw [uefiGetVarname_holds hWide, uefiGetVarname_holds hLetter]
  refine ⟨hWide, hLetter, ?_, rfl⟩
  intro hBack
  have hNarrow := narrow_of_holds_shownAgain hBack
  have hUnit : (0x141 : UInt16) ≤ 0xff := hNarrow 0x141 List.mem_cons_self
  revert hUnit
  decide

end DebugCode.Uefivar
