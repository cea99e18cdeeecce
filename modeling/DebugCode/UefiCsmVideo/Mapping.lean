import DebugCode.UefiCsmVideo.FarPointer
import DebugCode.UefiCsmVideo.RomScan

/-!
# The pages that are mapped

`mmap` rounds `BIOS_ROM_REGION_SIZE` up to whole pages, and a read behind them faults. The
length of an image comes from its header and is not compared with the size of the region.

* `reads_maybeVGAROM_lt_iff`: the search stays inside when the image does, or when it finds
  its letters first.
* `reads_scan_lt_iff`: the scan reads outside in no other way.
* `run_scan_congr`: what it finds then depends on the pages alone.
* `reads_lt_iff`: the same from the entry of the vector table.
-/

namespace DebugCode.UefiCsmVideo

open Lib Lib.Reader

/-- The bytes of the pages that cover the region. -/
def mappedSize : ℕ := 0x40000

variable {optROM : ℕ → UInt8} {vec : UInt32} {i : ℕ}

/-! ## The search for the letters -/

theorem run_tryVGA_eq_none_iff {j : ℕ} :
    (tryVGA i j).run optROM = none ↔ ¬ VGAAt optROM i j := by
  rw [← run_tryVGA, Option.eq_none_iff_forall_ne_some]
  exact ⟨fun h => h (), fun h _ => h⟩

theorem mem_reads_tryVGA {j : ℕ} : i + j ∈ (tryVGA i j).reads optROM := by
  rw [tryVGA, reads_bind]
  exact List.mem_append_left _ List.mem_cons_self

theorem VGAAt.mem_reads_tryVGA {j : ℕ} (h : VGAAt optROM i j) :
    i + j + 2 ∈ (tryVGA i j).reads optROM := by
  rw [tryVGA, reads_bind]
  apply List.mem_append_left
  exact mem_reads_compare (t := (i + j + 2, 0x41)) (run_compare_letters.mpr h) (by simp)

theorem le_of_mem_reads_tryVGA {j cell : ℕ} (h : cell ∈ (tryVGA i j).reads optROM) :
    cell ≤ i + j + 2 := by
  rw [tryVGA, reads_bind, reads_done, List.append_nil] at h
  obtain ⟨t, ht, rfl⟩ := mem_of_mem_reads_compare h
  simp only [List.mem_cons, List.not_mem_nil, or_false] at ht
  rcases ht with rfl | rfl | rfl <;> omega

theorem mem_reads_maybeVGAROM_iff {length cell : ℕ} :
    cell ∈ (maybeVGAROM i length).reads optROM ↔
      ∃ j < length - 2, (∀ k < j, ¬ VGAAt optROM i k) ∧ cell ∈ (tryVGA i j).reads optROM := by
  rw [maybeVGAROM, reads_bind, reads_done, List.append_nil, mem_reads_forLoop_iff Nat.one_pos]
  simp only [one_dvd, true_and, true_implies, run_tryVGA_eq_none_iff]

/-- An image that does not fit is searched up to the end of the pages, unless the letters
come before. -/
theorem reads_maybeVGAROM_lt_iff (hAligned : 512 ∣ i) (hInside : i < mappedSize) :
    (∀ cell ∈ (maybeVGAROM i (imageLength optROM i)).reads optROM, cell < mappedSize) ↔
      i + imageLength optROM i ≤ mappedSize ∨
        ∃ j, VGAAt optROM i j ∧ i + j + 2 < mappedSize := by
  have hSize : mappedSize = 0x40000 := rfl
  have hLength : imageLength optROM i = 512 * (optROM (i + 2)).toNat := rfl
  constructor
  · intro hReads
    by_contra hNot
    rw [not_or] at hNot
    obtain ⟨hLong, hNowhere⟩ := hNot
    -- Both the image and the pages end at a block, so at least one block is missing.
    have hBlock : mappedSize + 512 ≤ i + imageLength optROM i := by omega
    by_cases hFound : ∃ j, VGAAt optROM i j ∧ i + j < mappedSize
    · -- The first place with the letters is reached, and all three are read.
      obtain ⟨k, hVGA, hk⟩ := hFound
      obtain ⟨j, hjk, hFirst, hBefore⟩ := exists_first hVGA
      have hj : j < imageLength optROM i - 2 := by omega
      have hCell := mem_reads_maybeVGAROM_iff.mpr ⟨j, hj, hBefore, hFirst.mem_reads_tryVGA⟩
      exact hNowhere ⟨j, hFirst, hReads _ hCell⟩
    · -- The first byte behind the pages is reached.
      have hNone : ∀ k < mappedSize - i, ¬ VGAAt optROM i k :=
        fun k hk hVGA => hFound ⟨k, hVGA, by omega⟩
      have hj : mappedSize - i < imageLength optROM i - 2 := by omega
      have hCell := mem_reads_maybeVGAROM_iff.mpr ⟨mappedSize - i, hj, hNone, mem_reads_tryVGA⟩
      have hLt := hReads _ hCell
      omega
  · intro hFits cell hCell
    obtain ⟨j, hj, hBefore, hCell⟩ := mem_reads_maybeVGAROM_iff.mp hCell
    have hLe := le_of_mem_reads_tryVGA hCell
    rcases hFits with hFits | ⟨k, hVGA, hk⟩
    · omega
    · have hjk : j ≤ k := Nat.le_of_not_lt fun hLt => hBefore k hLt hVGA
      omega

/-! ## The scan -/

theorem mem_reads_scan_iff {cell : ℕ} : cell ∈ (scan vec).reads optROM ↔
    ∃ i, 512 ∣ i ∧ i < biosRomRegionSize ∧ (∀ j < i, ¬ Matches optROM vec.toNat j) ∧
      cell ∈ (tryROM vec i).reads optROM := by
  rw [scan, mem_reads_forLoop_iff (by decide)]
  apply exists_congr
  intro i
  apply and_congr_right
  intro hAligned
  apply and_congr_right
  intro hInside
  rw [run_tryROM_before hInside]

/-- A round reads the header, and the image where it matches. -/
theorem reads_tryROM_lt_iff (hAligned : 512 ∣ i) (hInside : i < biosRomRegionSize) :
    (∀ cell ∈ (tryROM vec i).reads optROM, cell < mappedSize) ↔
      (Matches optROM vec.toNat i →
        ∀ cell ∈ (maybeVGAROM i (imageLength optROM i)).reads optROM, cell < mappedSize) := by
  have hSize : mappedSize = 0x40000 := rfl
  have hRegion : biosRomRegionSize = 0x3ffff := rfl
  have hHeader : ∀ cell ∈ (compare [(i, 0x55), (i + 1, 0xaa)]).reads optROM,
      cell < mappedSize := by
    intro cell hCell
    obtain ⟨t, ht, rfl⟩ := mem_of_mem_reads_compare hCell
    simp only [List.mem_cons, List.not_mem_nil, or_false] at ht
    rcases ht with rfl | rfl
    · omega
    · exact (by omega : i + 1 < mappedSize)
  have hLen : i + 2 < mappedSize := by omega
  rw [tryROM, reads_bind, List.forall_mem_append, and_iff_right hHeader]
  split_ifs with hBytes
  · rw [run_compare_header] at hBytes
    rw [reads_read, List.forall_mem_cons, and_iff_right hLen]
    simp only [shiftLeft_eq_imageLength]
    split_ifs with hRange
    · have hMatches : Matches optROM vec.toNat i :=
        ⟨⟨hAligned, by omega, hBytes.1, hBytes.2⟩, hRange.1, hRange.2⟩
      rw [reads_bind, reads_done, List.append_nil]
      exact ⟨fun h _ => h, fun h => h hMatches⟩
    · refine iff_of_true (by simp) ?_
      intro hMatches
      exact absurd ⟨hMatches.start_le, hMatches.le_end⟩ hRange
  · refine iff_of_true (by simp) ?_
    intro hMatches
    exact absurd (run_compare_header.mpr ⟨hMatches.isROM.first, hMatches.isROM.second⟩) hBytes

/-- The scan reads inside the pages exactly when the image that is searched fits or shows its
letters in time. -/
theorem reads_scan_lt_iff :
    (∀ cell ∈ (scan vec).reads optROM, cell < mappedSize) ↔
      ∀ i, Matches optROM vec.toNat i → (∀ j < i, ¬ Matches optROM vec.toNat j) →
        i + imageLength optROM i ≤ mappedSize ∨
          ∃ j, VGAAt optROM i j ∧ i + j + 2 < mappedSize := by
  constructor
  · intro hReads i hMatches hBefore
    have hAligned := hMatches.isROM.aligned
    have hInside := hMatches.isROM.lt_size
    rw [← reads_maybeVGAROM_lt_iff hAligned hMatches.isROM.inside]
    refine (reads_tryROM_lt_iff hAligned hInside).mp ?_ hMatches
    intro cell hCell
    exact hReads cell (mem_reads_scan_iff.mpr ⟨i, hAligned, hInside, hBefore, hCell⟩)
  · intro hFits cell hCell
    obtain ⟨i, hAligned, hInside, hBefore, hCell⟩ := mem_reads_scan_iff.mp hCell
    refine (reads_tryROM_lt_iff hAligned hInside).mpr ?_ cell hCell
    intro hMatches
    rw [reads_maybeVGAROM_lt_iff hAligned hMatches.isROM.inside]
    exact hFits i hMatches hBefore

/-- A scan that stays inside the pages finds the same whatever lies behind them. -/
theorem run_scan_congr {optROM' : ℕ → UInt8}
    (hSame : ∀ cell < mappedSize, optROM cell = optROM' cell)
    (hInside : ∀ cell ∈ (scan vec).reads optROM, cell < mappedSize) :
    (scan vec).run optROM = (scan vec).run optROM' :=
  (run_congr fun cell hCell => hSame cell (hInside cell hCell)).1

/-- Whatever the entry of the vector table is. -/
theorem reads_lt_iff (optROM : ℕ → UInt8) (entry : UInt32) :
    (∀ cell ∈ (scan (int10hVec entry)).reads optROM, cell < mappedSize) ↔
      ∀ i, Matches optROM (int10hVec entry).toNat i →
        (∀ j < i, ¬ Matches optROM (int10hVec entry).toNat j) →
          i + imageLength optROM i ≤ mappedSize ∨
            ∃ j, VGAAt optROM i j ∧ i + j + 2 < mappedSize :=
  reads_scan_lt_iff

/-- A header in the last block with the greatest length: the search leaves the pages. -/
theorem exists_read_behind :
    ¬ ∀ cell ∈ (scan (int10hVec 0xf000fe00)).reads (headerAt 0x3fe00 0xff), cell < mappedSize := by
  have hVec : (int10hVec 0xf000fe00).toNat = 0xffe00 := rfl
  have hSize : mappedSize = 0x40000 := rfl
  have hStart : biosRomRegionStart = 0xc0000 := rfl
  have hROM (i : ℕ) : IsROM (headerAt 0x3fe00 0xff) i ↔ i = 0x3fe00 :=
    isROM_headerAt_iff (by decide) (by decide)
  have hLength : imageLength (headerAt 0x3fe00 0xff) 0x3fe00 = 512 * 255 :=
    imageLength_headerAt 0x3fe00 0xff
  have hMatches : Matches (headerAt 0x3fe00 0xff) (int10hVec 0xf000fe00).toNat 0x3fe00 :=
    ⟨(hROM _).mpr rfl, by omega, by omega⟩
  rw [reads_scan_lt_iff]
  intro hFits
  rcases hFits _ hMatches fun j hj hBefore => hj.ne ((hROM j).mp hBefore.isROM) with hEnd | hVGA
  · omega
  · obtain ⟨j, hVGA, -⟩ := hVGA
    have hLetter := hVGA.1
    rw [headerAt] at hLetter
    split_ifs at hLetter <;> exact absurd hLetter (by decide)

end DebugCode.UefiCsmVideo
