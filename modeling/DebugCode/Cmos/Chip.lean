import Mathlib.Data.List.Basic
import Mathlib.Logic.Function.Basic
import Mathlib.Tactic.Common

/-!
# The CMOS memory, cmos-reset.c and cmos-dump.c

The chip has 128 bytes behind two ports: a byte written to port `0x70` selects one, port `0x71`
reads and writes it. Reading register C, the byte `0x0c`, clears it, and the clock of the chip
changes the first 14 bytes at any time.

* `cmosRead_fst`, `cmosRead_cells`, `cmosWrite_cells`: the accesses, from every state of the
  ports.
* `main_cells`: `cmos-reset` complements the two bytes of the checksum and changes nothing else,
  and changes nothing at all when it is not allowed to use the ports.
* `main_invalidates`: a checksum that was right is wrong afterwards, however it is computed.
* `dump_memory`: what `cmos-dump` reads, with the clock running.
* `dump_main`: the two programs one after the other.
-/

namespace DebugCode.Cmos

abbrev Cells := BitVec 7 → BitVec 8

structure Chip where
  index : BitVec 7
  cells : Cells

def registerC : BitVec 7 := 0x0c

def cmosChecksumHi : BitVec 8 := 0x2e

def cmosChecksumLo : BitVec 8 := 0x2f

namespace Chip

/-- `outb(value, port)`; bit 7 of the index is not for the memory. -/
def outb (chip : Chip) (value : BitVec 8) (port : BitVec 16) : Chip :=
  if port = 0x70 then { chip with index := value.setWidth 7 }
  else if port = 0x71 then { chip with cells := Function.update chip.cells chip.index value }
  else chip

/-- `inb(0x71)` -/
def inb (chip : Chip) : BitVec 8 × Chip :=
  (chip.cells chip.index,
    if chip.index = registerC then { chip with cells := Function.update chip.cells registerC 0 }
    else chip)

end Chip

/-! ## The accesses -/

def cmosRead (addr : BitVec 8) (chip : Chip) : BitVec 8 × Chip :=
  ((chip.outb addr 0x70).outb 0 0x80).inb

def cmosWrite (addr val : BitVec 8) (chip : Chip) : Chip :=
  ((chip.outb addr 0x70).outb 0 0x80).outb val 0x71

def cmosInvert (addr : BitVec 8) (chip : Chip) : Chip :=
  let (v, chip) := cmosRead addr chip
  cmosWrite addr (255 ^^^ v) chip

section

variable (addr val : BitVec 8) (chip : Chip)

theorem cmosRead_fst : (cmosRead addr chip).1 = chip.cells (addr.setWidth 7) := rfl

theorem cmosRead_cells : (cmosRead addr chip).2.cells =
    if addr.setWidth 7 = registerC then Function.update chip.cells registerC 0
    else chip.cells := apply_ite Chip.cells _ _ _

theorem cmosWrite_cells :
    (cmosWrite addr val chip).cells = Function.update chip.cells (addr.setWidth 7) val := rfl

theorem cmosInvert_cells (hOther : addr.setWidth 7 ≠ registerC) :
    (cmosInvert addr chip).cells =
      Function.update chip.cells (addr.setWidth 7) (~~~chip.cells (addr.setWidth 7)) := by
  rw [cmosInvert, cmosWrite_cells, cmosRead_fst, cmosRead_cells, if_neg hOther]
  exact congrArg _ BitVec.allOnes_xor

end

/-! ## cmos-reset.c -/

/-- Which of the calls that ask for the ports succeed. -/
structure Access where
  ioperm70 : Bool
  ioperm80 : Bool
  iopl : Bool

def Access.granted (access : Access) : Bool := access.ioperm70 && access.ioperm80 && access.iopl

/-- `main`, with the exit status. -/
def main (access : Access) (chip : Chip) : ℕ × Chip :=
  if !access.ioperm70 then (1, chip)
  else if !access.ioperm80 then (1, chip)
  else if !access.iopl then (1, chip)
  else (0, cmosInvert cmosChecksumLo (cmosInvert cmosChecksumHi chip))

/-- One of the two bytes of the checksum. -/
def InChecksum (i : BitVec 7) : Prop := i = 0x2e ∨ i = 0x2f

instance : DecidablePred InChecksum := fun _ => inferInstanceAs (Decidable (_ ∨ _))

/-- The memory with the checksum complemented. -/
def complemented (cells : Cells) : Cells := fun i => if InChecksum i then ~~~cells i else cells i

theorem complemented_of_in {i : BitVec 7} (hIn : InChecksum i) (cells : Cells) :
    complemented cells i = ~~~cells i := if_pos hIn

theorem complemented_of_not {i : BitVec 7} (hOut : ¬ InChecksum i) (cells : Cells) :
    complemented cells i = cells i := if_neg hOut

theorem update_checksum (cells : Cells) :
    Function.update (Function.update cells 0x2e (~~~cells 0x2e)) 0x2f (~~~cells 0x2f) =
      complemented cells := by
  funext i
  by_cases hIsLo : i = 0x2f
  · subst hIsLo
    rw [Function.update_self, complemented_of_in (Or.inr rfl)]
  · rw [Function.update_of_ne hIsLo]
    by_cases hIsHi : i = 0x2e
    · subst hIsHi
      rw [Function.update_self, complemented_of_in (Or.inl rfl)]
    · rw [Function.update_of_ne hIsHi, complemented_of_not (not_or.mpr ⟨hIsHi, hIsLo⟩)]

theorem main_of_not_granted {access : Access} (hDenied : access.granted = false) (chip : Chip) :
    main access chip = (1, chip) := by
  obtain ⟨ioperm70, ioperm80, iopl⟩ := access
  simp only [Access.granted, Bool.and_eq_false_iff] at hDenied
  rcases hDenied with (rfl | rfl) | rfl
  · rfl
  · cases ioperm70 <;> rfl
  · cases ioperm70 <;> cases ioperm80 <;> rfl

theorem main_of_granted {access : Access} (hGranted : access.granted = true) (chip : Chip) :
    (main access chip).1 = 0 ∧ (main access chip).2.cells = complemented chip.cells := by
  obtain ⟨ioperm70, ioperm80, iopl⟩ := access
  obtain ⟨⟨rfl, rfl⟩, rfl⟩ : (ioperm70 = true ∧ ioperm80 = true) ∧ iopl = true := by
    simpa [Access.granted] using hGranted
  refine ⟨rfl, ?_⟩
  show (cmosInvert cmosChecksumLo (cmosInvert cmosChecksumHi chip)).cells = _
  rw [cmosInvert_cells _ _ (by decide), cmosInvert_cells _ _ (by decide)]
  exact update_checksum chip.cells

/-- What `cmos-reset` does to the memory. -/
theorem main_cells (access : Access) (chip : Chip) :
    (main access chip).2.cells =
      if access.granted then complemented chip.cells else chip.cells := by
  cases hGranted : access.granted with
  | true => exact (main_of_granted hGranted chip).2
  | false => rw [main_of_not_granted hGranted, if_neg Bool.false_ne_true]

theorem complemented_complemented (cells : Cells) : complemented (complemented cells) = cells := by
  funext i
  by_cases hIn : InChecksum i
  · rw [complemented_of_in hIn, complemented_of_in hIn, BitVec.not_not]
  · rw [complemented_of_not hIn, complemented_of_not hIn]

/-- A checksum over the other bytes of the memory. -/
def ReadsOthers (sum : Cells → BitVec 16) : Prop :=
  ∀ cells cells', (∀ i, ¬ InChecksum i → cells i = cells' i) → sum cells = sum cells'

/-- The checksum stored, high byte first. -/
def storedChecksum (cells : Cells) : BitVec 16 := cells 0x2e ++ cells 0x2f

theorem storedChecksum_complemented (cells : Cells) :
    storedChecksum (complemented cells) = ~~~storedChecksum cells := BitVec.not_append.symm

/-- The checksum is right. -/
def ChecksumRight (sum : Cells → BitVec 16) (cells : Cells) : Prop :=
  storedChecksum cells = sum cells

/-- A checksum that was right is wrong when `cmos-reset` has run, and right again when it has run
once more. -/
theorem main_invalidates {sum : Cells → BitVec 16} (hSum : ReadsOthers sum) {access : Access}
    (hGranted : access.granted = true) {chip : Chip} (hRight : ChecksumRight sum chip.cells) :
    ¬ ChecksumRight sum (main access chip).2.cells ∧
      ChecksumRight sum (main access (main access chip).2).2.cells := by
  have hOnce := (main_of_granted hGranted chip).2
  have hTwice := (main_of_granted hGranted (main access chip).2).2
  have hSame : sum (complemented chip.cells) = sum chip.cells :=
    hSum _ _ fun i hOut => complemented_of_not hOut _
  refine ⟨?_, ?_⟩
  · rw [hOnce, ChecksumRight, storedChecksum_complemented, hSame, ← hRight]
    intro hEqual
    have hBit := congrArg (fun v : BitVec 16 => v.getLsbD 0) hEqual
    simp at hBit
  · rw [hTwice, hOnce, complemented_complemented]
    exact hRight

/-- The sum of the bytes from `0x10` to `0x2d`. -/
def bytesSum (cells : Cells) : BitVec 16 :=
  (List.range 30).foldl (fun sum k => sum + (cells (BitVec.ofNat 7 (16 + k))).setWidth 16) 0

theorem bytesSum_readsOthers : ReadsOthers bytesSum := by
  intro cells cells' hSame
  apply List.foldl_ext
  intro sum k hk
  have hBelow := List.mem_range.mp hk
  rw [hSame]
  rintro (hHi | hLo)
  · have hIndex : (16 + k) % 128 = 46 := congrArg BitVec.toNat hHi
    omega
  · have hIndex : (16 + k) % 128 = 47 := congrArg BitVec.toNat hLo
    omega

/-- A memory of bytes `0x0f`, of which thirty add up to `0x1c2`. -/
def fifteens (i : BitVec 7) : BitVec 8 :=
  if i = 0x2e then 0x01 else if i = 0x2f then 0xc2 else 0x0f

theorem main_invalidates_fifteens :
    ¬ ChecksumRight bytesSum (main ⟨true, true, true⟩ ⟨0, fifteens⟩).2.cells ∧
      ChecksumRight bytesSum
        (main ⟨true, true, true⟩ (main ⟨true, true, true⟩ ⟨0, fifteens⟩).2).2.cells := by
  have hRight : ChecksumRight bytesSum fifteens := by
    unfold ChecksumRight
    decide
  exact main_invalidates bytesSum_readsOthers rfl hRight

/-! ## cmos-dump.c -/

/-- The loop that reads the memory, after `n` rounds: `clock` is what the clock of the chip does
before each one. -/
def dump (clock : ℕ → Cells → Cells) (chip : Chip) : ℕ → List (BitVec 8) × Chip
  | 0 => ([], chip)
  | n + 1 =>
    let (data, chip) := dump clock chip n
    let chip := { chip with cells := clock n chip.cells }
    let (value, chip) := cmosRead (BitVec.ofNat 8 n) chip
    (data ++ [value], chip)

theorem dump_succ (clock : ℕ → Cells → Cells) (chip : Chip) (n : ℕ) :
    (dump clock chip (n + 1)).1 = (dump clock chip n).1 ++
      [clock n (dump clock chip n).2.cells ((BitVec.ofNat 8 n).setWidth 7)] := rfl

/-- The clock changes only its own bytes. -/
def OwnBytes (clock : ℕ → Cells → Cells) : Prop :=
  ∀ n cells (i : BitVec 7), 14 ≤ i.toNat → clock n cells i = cells i

section

variable {clock : ℕ → Cells → Cells} (hClock : OwnBytes clock) (chip : Chip)

include hClock in
/-- The bytes behind those of the clock stay as they are. -/
theorem dump_keeps (n : ℕ) (i : BitVec 7) (hMemory : 14 ≤ i.toNat) :
    (dump clock chip n).2.cells i = chip.cells i := by
  induction n with
  | zero => rfl
  | succ n ih =>
    have hOther : i ≠ registerC := by
      rintro rfl
      exact absurd hMemory (by decide)
    rw [dump, cmosRead_cells]
    split
    · rw [Function.update_of_ne hOther]
      exact (hClock _ _ _ hMemory).trans ih
    · exact (hClock _ _ _ hMemory).trans ih

theorem dump_length (clock : ℕ → Cells → Cells) (n : ℕ) : (dump clock chip n).1.length = n := by
  induction n with
  | zero => rfl
  | succ n ih =>
    rw [dump_succ, List.length_append, ih]
    rfl

include hClock in
/-- What is read of the memory is what was there at the beginning, in every round. -/
theorem dump_memory {n i : ℕ} (hRead : i < n) (hMemory : 14 ≤ i) (hSize : i < 128) :
    (dump clock chip n).1[i]? = some (chip.cells (BitVec.ofNat 7 i)) := by
  induction n with
  | zero => exact absurd hRead (Nat.not_lt_zero i)
  | succ n ih =>
    have hLength := dump_length chip clock n
    rw [dump_succ]
    rcases Nat.lt_succ_iff_lt_or_eq.mp hRead with hEarlier | rfl
    · rw [List.getElem?_append_left (by omega)]
      exact ih hEarlier
    · rw [List.getElem?_append_right (by omega), hLength, Nat.sub_self, List.getElem?_cons_zero]
      have hIndex : (BitVec.ofNat 8 i).setWidth 7 = BitVec.ofNat 7 i := by
        apply BitVec.eq_of_toNat_eq
        simp only [BitVec.toNat_setWidth, BitVec.toNat_ofNat]
        omega
      have hNat : (BitVec.ofNat 7 i).toNat = i := by
        rw [BitVec.toNat_ofNat]
        omega
      rw [hIndex, hClock _ _ _ (by omega), dump_keeps hClock chip i _ (by omega)]

/-- The checksum that `cmos-dump` shows is complemented by `cmos-reset`; the other bytes that are
not those of the clock are shown as before. -/
theorem dump_main {clock clock' : ℕ → Cells → Cells} (hClock : OwnBytes clock)
    (hClock' : OwnBytes clock') {access : Access} (hGranted : access.granted = true)
    (chip : Chip) {i : ℕ} (hMemory : 14 ≤ i) (hSize : i < 128) :
    (dump clock' (main access (dump clock chip 128).2).2 128).1[i]? =
      (dump clock chip 128).1[i]?.map fun v => if i = 46 ∨ i = 47 then ~~~v else v := by
  have hNat : (BitVec.ofNat 7 i).toNat = i := by
    rw [BitVec.toNat_ofNat]
    omega
  have hIn : InChecksum (BitVec.ofNat 7 i) ↔ i = 46 ∨ i = 47 := by
    rw [InChecksum, ← BitVec.toNat_inj, ← BitVec.toNat_inj, hNat]
    exact Iff.rfl
  rw [dump_memory hClock' _ hSize hMemory hSize, dump_memory hClock _ hSize hMemory hSize,
    (main_of_granted hGranted _).2, Option.map_some, complemented,
    dump_keeps hClock chip 128 _ (by omega)]
  exact congrArg some (if_congr hIn rfl rfl)

end

/-- A clock that counts the seconds in byte 0. -/
def seconds (_ : ℕ) (cells : Cells) : Cells := Function.update cells 0 (cells 0 + 1)

theorem seconds_ownBytes : OwnBytes seconds := by
  intro n cells i hMemory
  apply Function.update_of_ne
  rintro rfl
  exact absurd hMemory (by decide)

/-- The high byte of the checksum, and one of the other bytes. -/
theorem dump_main_seconds :
    let before := dump seconds ⟨0, fifteens⟩ 128
    let after := dump seconds (main ⟨true, true, true⟩ before.2).2 128
    after.1[46]? = before.1[46]?.map (~~~ ·) ∧ after.1[16]? = before.1[16]? := by
  intro before after
  have hMain : ∀ i, 14 ≤ i → i < 128 → after.1[i]? =
      before.1[i]?.map fun v => if i = 46 ∨ i = 47 then ~~~v else v := fun i hMemory hSize =>
    dump_main seconds_ownBytes seconds_ownBytes rfl ⟨0, fifteens⟩ hMemory hSize
  refine ⟨hMain 46 (by decide) (by decide), ?_⟩
  rw [hMain 16 (by decide) (by decide)]
  exact Option.map_id'

end DebugCode.Cmos
