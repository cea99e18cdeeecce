import DebugCode.Lib.Reads

/-!
# The scan for a video option ROM

`uefiCSMvideo.c` goes through the option ROM region of the BIOS in steps of 512 bytes. A
header is the bytes `55 AA` with the length of the image behind them, and the program looks
for the first one whose image the Int 10h vector points into.

* `run_maybeVGAROM`: the image is searched from end to end.
* `run_scan_eq_some_iff`: the ROM the scan reports.
* `findsROM_iff`: the scan is right exactly when no image that ends where the vector points
  to is taken for one that contains it.
-/

namespace DebugCode.UefiCsmVideo

open Lib Lib.Reader

def biosRomRegionStart : ℕ := 0x000c0000

def biosRomRegionEnd : ℕ := 0x000fffff

/-- `BIOS_ROM_REGION_END - BIOS_ROM_REGION_START`, one less than there are bytes. -/
def biosRomRegionSize : ℕ := biosRomRegionEnd - biosRomRegionStart

/-- The body of the loop of `maybeVGAROM`, which is left at the letters `VGA`. -/
def tryVGA (optROM i : ℕ) : Reader ℕ UInt8 (Option Unit) :=
  (compare [(optROM + i, 0x56), (optROM + i + 1, 0x47), (optROM + i + 2, 0x41)]).bind
    fun found => done (if found then some () else none)

/-- `for (i=0; i<length-2; i++)` -/
def maybeVGAROM (optROM length : ℕ) : Reader ℕ UInt8 Bool :=
  (forLoop (length - 2) 1 (tryVGA optROM)).bind fun result => done result.isSome

/-- What is printed of the ROM that was found. -/
structure OptionROM where
  start : ℕ
  length : ℕ
  vga : Bool
deriving DecidableEq

/-- The body of the scan, which is left at a ROM that the vector points into. -/
def tryROM (int10hVec : UInt32) (i : ℕ) : Reader ℕ UInt8 (Option OptionROM) :=
  (compare [(i, 0x55), (i + 1, 0xaa)]).bind fun header =>
    if header then
      read (i + 2) fun len =>
        let length := len.toNat <<< 9
        if biosRomRegionStart + i ≤ int10hVec.toNat ∧
            int10hVec.toNat ≤ biosRomRegionStart + i + length then
          (maybeVGAROM i length).bind fun vga =>
            done (some ⟨biosRomRegionStart + i, length, vga⟩)
        else done none
    else done none

/-- `for (i=0; i<BIOS_ROM_REGION_SIZE; i+= 512)`. The flag `VGA_SUPPORT` is set where there is
a result. -/
def scan (int10hVec : UInt32) : Reader ℕ UInt8 (Option OptionROM) :=
  forLoop biosRomRegionSize 512 (tryROM int10hVec)

/-! ## Images -/

section

variable (optROM : ℕ → UInt8)

/-- An aligned header within the 256 KiB of the region. -/
structure IsROM (i : ℕ) : Prop where
  aligned : 512 ∣ i
  inside : i < 0x40000
  first : optROM i = 0x55
  second : optROM (i + 1) = 0xaa

/-- The length the header shows, in blocks of 512 bytes. -/
def imageLength (i : ℕ) : ℕ := 512 * (optROM (i + 2)).toNat

/-- The address lies in the image. -/
structure Contains (v i : ℕ) : Prop where
  isROM : IsROM optROM i
  start_le : biosRomRegionStart + i ≤ v
  lt_end : v < biosRomRegionStart + i + imageLength optROM i

/-- What the program asks instead: the address may also be the one behind the image. -/
structure Matches (v i : ℕ) : Prop where
  isROM : IsROM optROM i
  start_le : biosRomRegionStart + i ≤ v
  le_end : v ≤ biosRomRegionStart + i + imageLength optROM i

/-- `VGA` at an offset into the image. -/
def VGAAt (i j : ℕ) : Prop :=
  optROM (i + j) = 0x56 ∧ optROM (i + j + 1) = 0x47 ∧ optROM (i + j + 2) = 0x41

/-- The three letters occur wholly inside the image. -/
def LooksVGA (i : ℕ) : Prop := ∃ j, j + 3 ≤ imageLength optROM i ∧ VGAAt optROM i j

/-- What the scan is for: there is a result exactly when an image contains the address, it is
the first such image, and it is labelled by its contents. -/
structure FindsROM (v : ℕ) (found : Option OptionROM) : Prop where
  isSome_iff : found.isSome = true ↔ ∃ i, Contains optROM v i
  first : ∀ rom ∈ found, ∃ i, rom.start = biosRomRegionStart + i ∧ Contains optROM v i ∧
    (∀ j < i, ¬ Contains optROM v j) ∧ rom.length = imageLength optROM i ∧
    (rom.vga = true ↔ LooksVGA optROM i)

end

variable {optROM : ℕ → UInt8} {int10hVec : UInt32} {i j : ℕ}

/-- The comparisons of `maybeVGAROM`. -/
theorem run_compare_letters :
    (compare [(i + j, 0x56), (i + j + 1, 0x47), (i + j + 2, 0x41)]).run optROM = true ↔
      VGAAt optROM i j := by
  rw [run_compare]
  simp only [List.forall_mem_cons, List.not_mem_nil, false_implies, implies_true, and_true]
  rfl

theorem run_tryVGA : (tryVGA i j).run optROM = some () ↔ VGAAt optROM i j := by
  rw [← run_compare_letters, tryVGA, run_bind, run_done]
  split_ifs with hFound
  · exact iff_of_true rfl hFound
  · exact iff_of_false (by simp) hFound

/-- The search reaches every place for the three letters. -/
theorem run_maybeVGAROM (length : ℕ) :
    (maybeVGAROM i length).run optROM = true ↔ ∃ j, j + 3 ≤ length ∧ VGAAt optROM i j := by
  rw [maybeVGAROM, run_bind, run_done, ← Option.ne_none_iff_isSome, ne_eq,
    run_forLoop_eq_none_iff Nat.one_pos]
  constructor
  · intro hFound
    by_contra hNone
    apply hFound
    intro j _ hj
    rw [Option.eq_none_iff_forall_not_mem]
    intro u hu
    exact hNone ⟨j, by omega, run_tryVGA.mp hu⟩
  · rintro ⟨j, hj, hVGA⟩ hNone
    have hRound := hNone j (Nat.one_dvd j) (by omega)
    rw [run_tryVGA.mpr hVGA] at hRound
    cases hRound

/-- The comparisons of the scan. -/
theorem run_compare_header : (compare [(i, 0x55), (i + 1, 0xaa)]).run optROM = true ↔
    optROM i = 0x55 ∧ optROM (i + 1) = 0xaa := by
  rw [run_compare]
  simp only [List.forall_mem_cons, List.not_mem_nil, false_implies, implies_true, and_true]

theorem shiftLeft_eq_imageLength : (optROM (i + 2)).toNat <<< 9 = imageLength optROM i := by
  rw [imageLength, Nat.shiftLeft_eq, Nat.mul_comm]

/-- One round of the scan. -/
theorem run_tryROM : (tryROM int10hVec i).run optROM =
    if optROM i = 0x55 ∧ optROM (i + 1) = 0xaa ∧ biosRomRegionStart + i ≤ int10hVec.toNat ∧
        int10hVec.toNat ≤ biosRomRegionStart + i + imageLength optROM i then
      some ⟨biosRomRegionStart + i, imageLength optROM i,
        (maybeVGAROM i (imageLength optROM i)).run optROM⟩
    else none := by
  rw [tryROM, run_bind]
  cases hHeader : (compare [(i, 0x55), (i + 1, 0xaa)]).run optROM with
  | false =>
    have hNot : ¬ (optROM i = 0x55 ∧ optROM (i + 1) = 0xaa) := by
      rw [← run_compare_header, hHeader]
      exact Bool.false_ne_true
    simp only [← and_assoc, hNot, false_and, if_false]
    rfl
  | true =>
    have hBytes := run_compare_header.mp hHeader
    simp only [if_true, hBytes, true_and, run_read, shiftLeft_eq_imageLength]
    split_ifs
    · rw [run_bind]
      rfl
    · rfl

theorem run_tryROM_eq_some_iff {rom : OptionROM} (hAligned : 512 ∣ i)
    (hInside : i < biosRomRegionSize) : (tryROM int10hVec i).run optROM = some rom ↔
      Matches optROM int10hVec.toNat i ∧ rom = ⟨biosRomRegionStart + i, imageLength optROM i,
        (maybeVGAROM i (imageLength optROM i)).run optROM⟩ := by
  have hSize : biosRomRegionSize = 0x3ffff := rfl
  rw [run_tryROM]
  split_ifs with hHere
  · rw [Option.some_inj, eq_comm]
    obtain ⟨hFirst, hSecond, hStart, hEnd⟩ := hHere
    exact (and_iff_right ⟨⟨hAligned, by omega, hFirst, hSecond⟩, hStart, hEnd⟩).symm
  · refine iff_of_false (by simp) ?_
    rintro ⟨hMatches, -⟩
    exact hHere ⟨hMatches.isROM.first, hMatches.isROM.second, hMatches.start_le, hMatches.le_end⟩

theorem run_tryROM_eq_none_iff (hAligned : 512 ∣ i) (hInside : i < biosRomRegionSize) :
    (tryROM int10hVec i).run optROM = none ↔ ¬ Matches optROM int10hVec.toNat i := by
  rw [Option.eq_none_iff_forall_ne_some]
  constructor
  · intro hNone hMatches
    exact hNone _ ((run_tryROM_eq_some_iff hAligned hInside).mpr ⟨hMatches, rfl⟩)
  · intro hNot rom hSome
    exact hNot ((run_tryROM_eq_some_iff hAligned hInside).mp hSome).1

/-- An aligned offset in the region is one of the rounds: the last one is not cut off. -/
theorem IsROM.lt_size (h : IsROM optROM i) : i < biosRomRegionSize := by
  have hSize : biosRomRegionSize = 0x3ffff := rfl
  have hInside := h.inside
  have hAligned := h.aligned
  omega

theorem run_tryROM_before (hi : i < biosRomRegionSize) :
    (∀ j, 512 ∣ j → j < i → (tryROM int10hVec j).run optROM = none) ↔
      ∀ j < i, ¬ Matches optROM int10hVec.toNat j := by
  constructor
  · intro hNone j hj hMatches
    have hAligned := hMatches.isROM.aligned
    exact (run_tryROM_eq_none_iff hAligned (hj.trans hi)).mp (hNone j hAligned hj) hMatches
  · intro hNot j hAligned hj
    exact (run_tryROM_eq_none_iff hAligned (hj.trans hi)).mpr (hNot j hj)

/-- The scan reports the first ROM that matches. -/
theorem run_scan_eq_some_iff {rom : OptionROM} : (scan int10hVec).run optROM = some rom ↔
    ∃ i, Matches optROM int10hVec.toNat i ∧ (∀ j < i, ¬ Matches optROM int10hVec.toNat j) ∧
      rom = ⟨biosRomRegionStart + i, imageLength optROM i,
        (maybeVGAROM i (imageLength optROM i)).run optROM⟩ := by
  rw [scan, run_forLoop_eq_some_iff (by decide)]
  constructor
  · rintro ⟨i, hAligned, hInside, hBefore, hSome⟩
    obtain ⟨hMatches, hRom⟩ := (run_tryROM_eq_some_iff hAligned hInside).mp hSome
    exact ⟨i, hMatches, (run_tryROM_before hInside).mp hBefore, hRom⟩
  · rintro ⟨i, hMatches, hBefore, hRom⟩
    have hInside := hMatches.isROM.lt_size
    have hAligned := hMatches.isROM.aligned
    exact ⟨i, hAligned, hInside, (run_tryROM_before hInside).mpr hBefore,
      (run_tryROM_eq_some_iff hAligned hInside).mpr ⟨hMatches, hRom⟩⟩

theorem run_scan_eq_none_iff : (scan int10hVec).run optROM = none ↔
    ∀ i, ¬ Matches optROM int10hVec.toNat i := by
  rw [scan, run_forLoop_eq_none_iff (by decide)]
  constructor
  · intro hNone i hMatches
    have hInside := hMatches.isROM.lt_size
    have hAligned := hMatches.isROM.aligned
    exact (run_tryROM_eq_none_iff hAligned hInside).mp (hNone i hAligned hInside) hMatches
  · intro hNot i hAligned hInside
    exact (run_tryROM_eq_none_iff hAligned hInside).mpr (hNot i)

/-! ## When the scan is right -/

theorem Contains.toMatches {v : ℕ} (h : Contains optROM v i) : Matches optROM v i :=
  ⟨h.isROM, h.start_le, Nat.le_of_lt h.lt_end⟩

theorem Matches.contains_or {v : ℕ} (h : Matches optROM v i) :
    Contains optROM v i ∨ v = biosRomRegionStart + i + imageLength optROM i := by
  rcases Nat.lt_or_eq_of_le h.le_end with hLt | hEnd
  · exact Or.inl ⟨h.isROM, h.start_le, hLt⟩
  · exact Or.inr hEnd

/-- It is right when the first ROM that matches contains the address. -/
theorem findsROM_iff_first :
    FindsROM optROM int10hVec.toNat ((scan int10hVec).run optROM) ↔
      ∀ i, Matches optROM int10hVec.toNat i →
        (∀ j < i, ¬ Matches optROM int10hVec.toNat j) → Contains optROM int10hVec.toNat i := by
  constructor
  · intro hFinds i hMatches hBefore
    obtain ⟨j, hStart, hIn, -⟩ :=
      hFinds.first _ (run_scan_eq_some_iff.mpr ⟨i, hMatches, hBefore, rfl⟩)
    rw [Nat.add_left_cancel hStart]
    exact hIn
  · intro hFirst
    constructor
    · rw [Option.isSome_iff_exists]
      constructor
      · rintro ⟨rom, hRom⟩
        obtain ⟨i, hMatches, hBefore, -⟩ := run_scan_eq_some_iff.mp hRom
        exact ⟨i, hFirst i hMatches hBefore⟩
      · rintro ⟨i, hIn⟩
        rw [← Option.ne_none_iff_exists']
        intro hNone
        exact run_scan_eq_none_iff.mp hNone i hIn.toMatches
    · intro rom hRom
      obtain ⟨i, hMatches, hBefore, rfl⟩ := run_scan_eq_some_iff.mp hRom
      have hNotBefore : ∀ j < i, ¬ Contains optROM int10hVec.toNat j :=
        fun j hj hIn => hBefore j hj hIn.toMatches
      exact ⟨i, rfl, hFirst i hMatches hBefore, hNotBefore, rfl, run_maybeVGAROM _⟩

/-- The scan finds the ROM that the vector points into, exactly when every ROM that ends
where it points to comes behind one that contains the address. -/
theorem findsROM_iff (optROM : ℕ → UInt8) (int10hVec : UInt32) :
    FindsROM optROM int10hVec.toNat ((scan int10hVec).run optROM) ↔
      ∀ i, IsROM optROM i →
        int10hVec.toNat = biosRomRegionStart + i + imageLength optROM i →
          ∃ j < i, Contains optROM int10hVec.toNat j := by
  rw [findsROM_iff_first]
  constructor
  · intro hFirst i hROM hEnd
    have hHere : Matches optROM int10hVec.toNat i := ⟨hROM, by omega, by omega⟩
    obtain ⟨j, hLe, hMatches, hBefore⟩ := exists_first hHere
    have hIn := hFirst j hMatches hBefore
    have hNe : j ≠ i := by
      rintro rfl
      exact hEnd.not_lt hIn.lt_end
    exact ⟨j, Nat.lt_of_le_of_ne hLe hNe, hIn⟩
  · intro hBehind i hMatches hBefore
    rcases hMatches.contains_or with hIn | hEnd
    · exact hIn
    · obtain ⟨j, hj, hIn⟩ := hBehind i hMatches.isROM hEnd
      exact absurd hIn.toMatches (hBefore j hj)

/-! ## A region with one header -/

/-- Zeros but for a header. -/
def headerAt (i : ℕ) (len : UInt8) (cell : ℕ) : UInt8 :=
  if cell = i then 0x55 else if cell = i + 1 then 0xaa else if cell = i + 2 then len else 0

theorem imageLength_headerAt (i : ℕ) (len : UInt8) :
    imageLength (headerAt i len) i = 512 * len.toNat := by
  simp [imageLength, headerAt]

theorem isROM_headerAt_iff {len : UInt8} (hAligned : 512 ∣ i) (hInside : i < 0x40000) :
    IsROM (headerAt i len) j ↔ j = i := by
  constructor
  · intro h
    have hj := h.aligned
    by_contra hNe
    have hFirst := h.first
    rw [headerAt, if_neg hNe, if_neg (by omega), if_neg (by omega)] at hFirst
    exact absurd hFirst (by decide)
  · rintro rfl
    exact ⟨hAligned, hInside, by simp [headerAt], by simp [headerAt]⟩

/-- One block long and nothing behind it: the vector points behind the image. -/
theorem not_findsROM_behind :
    (∀ i, IsROM (headerAt 0 1) i → i + imageLength (headerAt 0 1) i ≤ 0x40000) ∧
      ¬ FindsROM (headerAt 0 1) (0xc0200 : UInt32).toNat
        ((scan 0xc0200).run (headerAt 0 1)) := by
  have hROM (i : ℕ) : IsROM (headerAt 0 1) i ↔ i = 0 :=
    isROM_headerAt_iff (Nat.dvd_zero 512) (by decide)
  have hLength : imageLength (headerAt 0 1) 0 = 512 := imageLength_headerAt 0 1
  have hStart : biosRomRegionStart = 0xc0000 := rfl
  have hVec : (0xc0200 : UInt32).toNat = 0xc0200 := rfl
  constructor
  · intro i hi
    rw [(hROM i).mp hi, hLength]
    decide
  · rw [findsROM_iff_first]
    intro hFirst
    have hIn := hFirst 0 ⟨(hROM 0).mpr rfl, by omega, by omega⟩ (by simp)
    have hLt := hIn.lt_end
    omega

end DebugCode.UefiCsmVideo
