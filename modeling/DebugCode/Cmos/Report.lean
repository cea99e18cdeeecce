import DebugCode.Cmos.Chip

/-!
# The report of cmos-dump.c

`main` prints the bytes read and then takes them apart: bits with a text for each of their two
values, fields that select a text of a table, and numbers of two bytes.

* `lookups_inside_iff`: every subscript is inside its table exactly when both drive types of the
  byte `0x10` are below 8; the table for them has 8 texts and its subscripts have 4 bits.
* `flags_own_iff`: every bit is shown with its own text exactly when bits 1 to 4 of status
  register B are equal, since three lines of it test the bit below the one they print.
* `extendedMem_iff`: the size of the extended memory shown in decimal is the one shown in
  hexadecimal exactly when the bytes `0x17` and `0x19` are equal.
* `report_agrees_iff`: when all of it belongs together.
-/

namespace DebugCode.Cmos

/-- The bytes read by `main`. -/
abbrev Data := ℕ → BitVec 8

/-! ## Tables -/

def cmosShutdownStatus : List String :=
  ["Power on or soft reset", "Memory size pass", "Memory test pass", "Memory test fail",
    "INT 19h reboot", "Flush keyboard and jmp via 40h:67h", "Protected mode tests pass",
    "Protected mode tests fail", "Used by POST during protected-mode RAM test",
    "Int 15h (block move)", "Jmp via 40h:67h", "Used by 80386"]

def floppyDisk : List String :=
  ["None", "360KB 5.25\" Drive", "1.2MB 5.25\" Drive", "720KB 3.5\" Drive", "1.44MB 3.5\" Drive",
    "2.88MB 3.5\" Drive", "Unknown", "Unknown"]

def hardDisk : List String :=
  ["None", "Type 1", "Unknown", "Unknown", "Unknown", "Unknown", "Unknown", "Unknown", "Unknown",
    "Unknown", "Unknown", "Unknown", "Unknown", "Unknown", "Type 14", "Type 16-47"]

def primaryDisplay : List String :=
  ["BIOS selected", "CGA 40 column", "CGA 80 column", "Monochrome"]

def divider : List String :=
  ["unknown", "unknown", "32.768 KHz (default)", "unknown", "unknown", "unknown", "unknown",
    "unknown"]

def rateSelection : List String :=
  ["none", "unknown", "unknown", "122 microseconds (minimum)", "unknown", "unknown",
    "976.562 microseconds (default)", "unknown", "unknown", "unknown", "unknown", "unknown",
    "unknown", "unknown", "unknown", "500 milliseconds"]

/-- A text of a table, with its subscript. -/
structure Lookup where
  table : List String
  index : BitVec 8

/-- The subscript is inside the table. -/
def Lookup.Inside (l : Lookup) : Prop := l.index.toNat < l.table.length

/-- The texts that `main` looks up, in its order. -/
def lookups (data : Data) : List Lookup :=
  [⟨rateSelection, data 10 &&& 0xf⟩, ⟨divider, (data 10 >>> 4) &&& 0x7⟩] ++
    (if data 15 < 0xb then [⟨cmosShutdownStatus, data 15⟩] else []) ++
    [⟨floppyDisk, (data 16 >>> 4) &&& 0xf⟩, ⟨floppyDisk, (data 16 >>> 0) &&& 0xf⟩,
      ⟨hardDisk, (data 18 >>> 4) &&& 0xf⟩, ⟨hardDisk, (data 18 >>> 0) &&& 0xf⟩,
      ⟨primaryDisplay, (data 20 >>> 4) &&& 3⟩]

theorem toNat_and_lt {m : ℕ} (v mask : BitVec 8) (hMask : mask.toNat < m) :
    (v &&& mask).toNat < m := by
  rw [BitVec.toNat_and]
  exact Nat.lt_of_le_of_lt Nat.and_le_right hMask

theorem lookups_inside_iff (data : Data) :
    (∀ l ∈ lookups data, l.Inside) ↔
      (data 16 >>> 4 &&& 0xf).toNat < 8 ∧ (data 16 &&& 0xf).toNat < 8 := by
  have hRate : (data 10 &&& 0xf).toNat < 16 := toNat_and_lt _ _ (by decide)
  have hDivider : (data 10 >>> 4 &&& 0x7).toNat < 8 := toNat_and_lt _ _ (by decide)
  have hFirst : (data 18 >>> 4 &&& 0xf).toNat < 16 := toNat_and_lt _ _ (by decide)
  have hSecond : (data 18 >>> 0 &&& 0xf).toNat < 16 := toNat_and_lt _ _ (by decide)
  have hDisplay : (data 20 >>> 4 &&& 3).toNat < 4 := toNat_and_lt _ _ (by decide)
  constructor
  · intro hInside
    refine ⟨hInside ⟨floppyDisk, _⟩ ?_, hInside ⟨floppyDisk, data 16 >>> 0 &&& 0xf⟩ ?_⟩
    · simp [lookups]
    · simp [lookups]
  · rintro ⟨hHigh, hLow⟩ l hl
    rw [lookups, List.mem_append, List.mem_append] at hl
    rcases hl with (hl | hl) | hl
    · simp only [List.mem_cons, List.not_mem_nil, or_false] at hl
      rcases hl with rfl | rfl
      · exact hRate
      · exact hDivider
    · split at hl
      · rename_i hShutdown
        obtain rfl := List.mem_singleton.mp hl
        have hBelow : (data 15).toNat < 11 := hShutdown
        show (data 15).toNat < 12
        omega
      · exact absurd hl List.not_mem_nil
    · simp only [List.mem_cons, List.not_mem_nil, or_false] at hl
      rcases hl with rfl | rfl | rfl | rfl | rfl
      · exact hHigh
      · exact hLow
      · exact hFirst
      · exact hSecond
      · exact hDisplay

/-! ## Bits -/

/-- A line that prints a bit of a byte and a text that a bit selects. -/
structure Flag where
  byte : ℕ
  bit : ℕ
  /-- the bit that selects the text -/
  textBit : ℕ
  set : String
  clear : String

/-- The bit printed, `(data[byte] >> bit) & 1`. -/
def Flag.value (f : Flag) (data : Data) : BitVec 8 := (data f.byte >>> f.bit) &&& 1

/-- The text printed. -/
def Flag.text (f : Flag) (data : Data) : String :=
  if (data f.byte >>> f.textBit) &&& 1 ≠ 0 then f.set else f.clear

/-- The text of the bit printed. -/
def Flag.ownText (f : Flag) (data : Data) : String :=
  if f.value data ≠ 0 then f.set else f.clear

/-- The lines of `main` with a bit and a text. -/
def flags : List Flag :=
  [⟨11, 1, 1, "Enabled", "Disabled"⟩, ⟨11, 2, 1, "12 Hour", "24 Hour"⟩,
    ⟨11, 3, 2, "Enabled", "Disabled"⟩, ⟨11, 4, 3, "Enabled", "Disabled"⟩,
    ⟨11, 5, 5, "Enabled", "Disabled"⟩, ⟨11, 6, 6, "Enabled", "Disabled"⟩,
    ⟨11, 7, 7, "Abort update in progress", "Update normally"⟩,
    ⟨13, 7, 7, "Battery Good", "Battery Dead"⟩,
    ⟨14, 2, 2, "Invalid", "Valid"⟩, ⟨14, 3, 3, "Bad", "Good"⟩, ⟨14, 4, 4, "Bad", "Good"⟩,
    ⟨14, 5, 5, "Invalid", "Valid"⟩, ⟨14, 6, 6, "Bad", "Good"⟩,
    ⟨14, 7, 7, "Lost power", "Not lost power"⟩,
    ⟨20, 1, 1, "Installed", "Not Installed"⟩, ⟨20, 2, 2, "Installed", "Not Installed"⟩,
    ⟨20, 3, 3, "Installed", "Not Installed"⟩,
    ⟨51, 0, 0, "Failed", "Passed"⟩, ⟨51, 7, 7, "128KB", "64KB"⟩]

theorem and_one_ne_zero_iff (v : BitVec 8) (k : ℕ) :
    (v >>> k) &&& 1 ≠ 0 ↔ v.getLsbD k = true := by
  have hBit : ((v >>> k) &&& 1).toNat = (v.getLsbD k).toNat := by
    rw [BitVec.toNat_and, BitVec.toNat_ushiftRight]
    show v.toNat >>> k &&& 1 = _
    rw [Nat.and_one_is_mod, BitVec.getLsbD, Nat.testBit, Nat.and_comm, Nat.and_one_is_mod]
    rcases Nat.mod_two_eq_zero_or_one (v.toNat >>> k) with hMod | hMod
    · rw [hMod]
      rfl
    · rw [hMod]
      rfl
  rw [Ne, ← BitVec.toNat_inj, hBit]
  cases v.getLsbD k <;> simp

/-- A line shows its own text exactly when the bit that selects the text is equal to the bit
printed. -/
theorem Flag.text_eq_iff (f : Flag) (hTexts : f.set ≠ f.clear) (data : Data) :
    f.text data = f.ownText data ↔
      (data f.byte).getLsbD f.textBit = (data f.byte).getLsbD f.bit := by
  rw [text, ownText, value]
  simp only [and_one_ne_zero_iff]
  cases (data f.byte).getLsbD f.textBit <;> cases (data f.byte).getLsbD f.bit
  · simp
  · simp [hTexts.symm]
  · simp [hTexts]
  · simp

theorem flags_own_iff (data : Data) :
    (∀ f ∈ flags, f.text data = f.ownText data) ↔
      (data 11).getLsbD 1 = (data 11).getLsbD 2 ∧ (data 11).getLsbD 2 = (data 11).getLsbD 3 ∧
        (data 11).getLsbD 3 = (data 11).getLsbD 4 := by
  have hTexts : ∀ f ∈ flags, f.set ≠ f.clear := by decide
  constructor
  · intro hOwn
    have hLine : ∀ f ∈ flags, (data f.byte).getLsbD f.textBit = (data f.byte).getLsbD f.bit :=
      fun f hf => (f.text_eq_iff (hTexts f hf) data).mp (hOwn f hf)
    exact ⟨hLine ⟨11, 2, 1, "12 Hour", "24 Hour"⟩ (by simp [flags]),
      hLine ⟨11, 3, 2, "Enabled", "Disabled"⟩ (by simp [flags]),
      hLine ⟨11, 4, 3, "Enabled", "Disabled"⟩ (by simp [flags])⟩
  · rintro ⟨hHours, hSquare, hEnded⟩ f hf
    rw [f.text_eq_iff (hTexts f hf)]
    simp only [flags, List.mem_cons, List.not_mem_nil, or_false] at hf
    rcases hf with rfl | rfl | rfl | rfl | hf
    · rfl
    · exact hHours
    · exact hSquare
    · exact hEnded
    · have hSame : f.textBit = f.bit := by
        rcases hf with rfl | rfl | rfl | rfl | rfl | rfl | rfl | rfl | rfl | rfl | rfl | rfl |
          rfl | rfl | rfl <;> rfl
      rw [hSame]

/-! ## Numbers of two bytes -/

/-- The bytes printed in hexadecimal for the extended memory, as a number. -/
def extendedMemHex (data : Data) : ℕ := (data 24 ++ data 23).toNat

/-- `tmp` when the extended memory is printed. -/
def extendedMemTmp (data : Data) : ℕ := (data 24).toNat <<< 8 ||| (data 25).toNat

theorem extendedMem_iff (data : Data) :
    extendedMemTmp data = extendedMemHex data ↔ data 25 = data 23 := by
  have hTmp : extendedMemTmp data = (data 24 ++ data 25).toNat := (BitVec.toNat_append _ _).symm
  rw [hTmp, extendedMemHex, BitVec.toNat_inj]
  exact BitVec.append_right_inj _

/-- What is shown for a bit or a number is what belongs to it. -/
structure Agrees (data : Data) : Prop where
  flags : ∀ f ∈ flags, f.text data = f.ownText data
  extendedMem : extendedMemTmp data = extendedMemHex data

theorem report_agrees_iff (data : Data) :
    Agrees data ↔ ((data 11).getLsbD 1 = (data 11).getLsbD 2 ∧
      (data 11).getLsbD 2 = (data 11).getLsbD 3 ∧ (data 11).getLsbD 3 = (data 11).getLsbD 4) ∧
        data 25 = data 23 := by
  rw [← flags_own_iff, ← extendedMem_iff]
  exact ⟨fun h => ⟨h.flags, h.extendedMem⟩, fun h => ⟨h.1, h.2⟩⟩

end DebugCode.Cmos
