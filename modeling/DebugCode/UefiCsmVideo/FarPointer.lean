import DebugCode.Lib.CInt
import Mathlib.Data.UInt

/-!
# Far pointers

A real mode address is a segment and an offset, and the byte it names is at
`segment * 16 + offset`. `uefiCSMvideo.c` converts the vector of Int 10h and `video-modes.c`
the strings that the BIOS points to, both with `|` for `+`.

* `toNat_int10hVec`: the twelve bits where segment and offset overlap are joined.
* `toNat_int10hVec_add`: what is lost are the bits that both have set there.
* `converts_iff`: the conversion is right exactly when there are none.
-/

namespace DebugCode

open Lib

/-- The cast of a far pointer to a pointer in `video-modes.c`. -/
def VideoModes.physToVirt (ptr : UInt32) : UInt32 :=
  let seg : UInt32 := ptr >>> 16
  let off : UInt32 := ptr &&& 0xffff
  (seg <<< 4) ||| off

namespace UefiCsmVideo

/-- `int10hVec`, from the entry `intVec[0x10]`. -/
def int10hVec (entry : UInt32) : UInt32 :=
  (entry &&& (0xffff : UInt32)) ||| ((entry &&& (0xffff0000 : UInt32)) >>> (12 : UInt32))

def segment (ptr : UInt32) : ℕ := ptr.toNat / 2 ^ 16

def offset (ptr : UInt32) : ℕ := ptr.toNat % 2 ^ 16

/-- The byte that a far pointer names. -/
def linear (ptr : UInt32) : ℕ := segment ptr * 16 + offset ptr

theorem toNat_and_low (ptr : UInt32) : (ptr &&& 0xffff).toNat = offset ptr :=
  Nat.and_two_pow_sub_one_eq_mod ptr.toNat 16

/-- The other mask leaves the rest of the number. -/
theorem toNat_and_high (ptr : UInt32) : (ptr &&& 0xffff0000).toNat = segment ptr * 2 ^ 16 := by
  have hWhole : ptr.toNat &&& (0xffff0000 ||| 0xffff) = ptr.toNat := by
    rw [show 0xffff0000 ||| 0xffff = 2 ^ 32 - 1 from rfl, Nat.and_two_pow_sub_one_eq_mod]
    exact Nat.mod_eq_of_lt ptr.toNat_lt
  have hDisjoint : (ptr.toNat &&& 0xffff0000) &&& (ptr.toNat &&& 0xffff) = 0 := by
    rw [Nat.and_assoc, ← Nat.and_assoc 0xffff0000, Nat.and_comm 0xffff0000, Nat.and_assoc,
      show 0xffff0000 &&& 0xffff = 0 from rfl, Nat.and_zero, Nat.and_zero]
  have hLow : ptr.toNat &&& 0xffff = offset ptr := toNat_and_low ptr
  have hHigh : (ptr &&& 0xffff0000).toNat = ptr.toNat &&& 0xffff0000 := rfl
  rw [Nat.and_or_distrib_left, or_eq_add_iff.mpr hDisjoint, hLow] at hWhole
  rw [hHigh]
  simp only [segment, offset] at hWhole ⊢
  omega

/-- Both programs join the shifted segment and the offset. -/
theorem toNat_int10hVec (entry : UInt32) :
    (int10hVec entry).toNat = segment entry * 16 ||| offset entry := by
  have hHigh : (segment entry * 2 ^ 16) >>> 12 = segment entry * 16 := by
    rw [Nat.shiftRight_eq_div_pow]
    omega
  rw [int10hVec, UInt32.toNat_or, UInt32.toNat_shiftRight, toNat_and_low, toNat_and_high,
    Nat.or_comm, ← hHigh]
  rfl

theorem physToVirt_eq (ptr : UInt32) : VideoModes.physToVirt ptr = int10hVec ptr := by
  apply UInt32.toNat.inj
  have hSegment : (ptr >>> 16).toNat = segment ptr := Nat.shiftRight_eq_div_pow ptr.toNat 16
  have hFits : segment ptr * 2 ^ 4 < 2 ^ 32 := by
    have hLt := ptr.toNat_lt
    rw [segment]
    omega
  have hShift : ((ptr >>> 16) <<< 4).toNat = segment ptr * 16 := by
    rw [UInt32.toNat_shiftLeft, hSegment, Nat.shiftLeft_eq]
    exact Nat.mod_eq_of_lt hFits
  rw [VideoModes.physToVirt, UInt32.toNat_or, toNat_and_low, hShift, toNat_int10hVec]

/-- What is lost of the address. -/
theorem toNat_int10hVec_add (entry : UInt32) :
    (int10hVec entry).toNat + (segment entry * 16 &&& offset entry) = linear entry := by
  rw [toNat_int10hVec]
  exact or_add_and _ _

/-- Both conversions are right exactly when segment and offset do not overlap. -/
theorem converts_iff (ptr : UInt32) :
    (int10hVec ptr).toNat = linear ptr ∧ (VideoModes.physToVirt ptr).toNat = linear ptr ↔
      segment ptr * 16 &&& offset ptr = 0 := by
  rw [physToVirt_eq, and_self, toNat_int10hVec]
  exact or_eq_add_iff

/-- `0001:0010` and `0002:0000` are one byte, but only the second is converted to it. -/
theorem not_converts_overlap :
    linear 0x00010010 = linear 0x00020000 ∧
      (int10hVec 0x00020000).toNat = linear 0x00020000 ∧
      (int10hVec 0x00010010).toNat ≠ linear 0x00010010 ∧
      (VideoModes.physToVirt 0x00010010).toNat ≠ linear 0x00010010 := by
  decide

end UefiCsmVideo

end DebugCode
