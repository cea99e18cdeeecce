import DebugCode.Lib.CInt
import DebugCode.Lib.LastWrite

/-!
# The write test and the read test of iotest

`main` fills a device with blocks that hold their own offset, until a write fails, and reads
them back. The device places its blocks anywhere, also two of them in one place.

* `writeTest_ends`: the write test ends, and leaves the last write to each place.
-/

namespace DebugCode.Iotest

open Lib

/-! ## The device -/

/-- A block of 4096 bytes, as the 512 words of type `off64_t` that the tests look at. -/
abbrev Block : Type := Vector Int 512

/-- A device whose block `i` is at `place i`; writes beyond its capacity fail. -/
structure Device (κ : Type) where
  place : Nat → κ
  capacity : Nat
  contents : κ → Block

/-- The block of an offset. -/
def blockAt (offset : Int) : Nat := (offset / 4096).toNat

section

variable {κ : Type} [DecidableEq κ]

/-- `write` of a block, when all its bytes are written. -/
def Device.write (device : Device κ) (offset : Int) (block : Block) : Option (Device κ) :=
  if blockAt offset < device.capacity then
    some { device with
      contents := Function.update device.contents (device.place (blockAt offset)) block }
  else none

/-- `read` of a block, when all its bytes are read. -/
def Device.read (device : Device κ) (offset : Int) : Option Block :=
  if blockAt offset < device.capacity then some (device.contents (device.place (blockAt offset)))
  else none

end

/-! ## The program -/

/-- The lines that the tests print. A rate is left out of the lines it stands in. -/
inductive Message
  | seekFailed (offset : Int)
  | writeFailed (offset : Int)
  | writtenTo (offset : Int)
  | readFailed (offset : Int)
  | readFrom (offset : Int)
  | data (offset word expected : Int)
  deriving DecidableEq

/-- The loop that fills the buffer with the offset. -/
def stamp (offset : Int) : Block := Vector.replicate 512 offset

structure WriteTest (κ : Type) where
  device : Device κ
  offset : Int
  count : Nat
  messages : List Message

section

variable {κ : Type} [DecidableEq κ]

def WriteTest.prints (test : WriteTest κ) (message : Message) : WriteTest κ :=
  { test with messages := test.messages ++ [message] }

/-- The end of a round, after a successful write. -/
def WriteTest.next (test : WriteTest κ) (device : Device κ) : WriteTest κ where
  device := device
  offset := toLong (test.offset + 4096)
  count := (test.count + 1) % 2 ^ 64
  messages :=
    if test.count &&& 0xffff = 0 then test.messages ++ [.writtenTo test.offset] else test.messages

/-- The write test. `lseek64` fails for an offset that is negative. -/
def writeTest : Nat → WriteTest κ → Option (WriteTest κ)
  | 0, _ => none
  | fuel + 1, test =>
    if test.offset < 0 then some (test.prints (.seekFailed test.offset))
    else
      (test.device.write test.offset (stamp test.offset)).elim
        (some (test.prints (.writeFailed test.offset)))
        fun device => writeTest fuel (test.next device)

/-- The loop that compares the words of a block, from byte `j` on. -/
def compareFrom (offset : Int) : Nat → List Int → List Message
  | _, [] => []
  | j, word :: words =>
    if word ≠ offset then .data (offset + j) word offset :: compareFrom offset (j + 8) words
    else compareFrom offset (j + 8) words

def mismatches (offset : Int) (block : Block) : List Message := compareFrom offset 0 block.toList

structure ReadTest where
  offset : Int
  i : Nat
  messages : List Message

def ReadTest.prints (test : ReadTest) (messages : List Message) : ReadTest :=
  { test with messages := test.messages ++ messages }

/-- The end of a round, after a block without mismatches. -/
def ReadTest.next (test : ReadTest) : ReadTest where
  offset := toLong (test.offset + 4096)
  i := test.i + 1
  messages :=
    if test.i &&& 0xffff = 0 then test.messages ++ [.readFrom test.offset] else test.messages

/-- The read test: `remaining` is `count - i`. -/
def readTest (device : Device κ) : Nat → ReadTest → ReadTest
  | 0, test => test
  | remaining + 1, test =>
    if test.offset < 0 then test.prints [.seekFailed test.offset]
    else
      (device.read test.offset).elim (test.prints [.readFailed test.offset]) fun block =>
        if mismatches test.offset block ≠ [] then test.prints (mismatches test.offset block)
        else readTest device remaining test.next

/-- The blocks written, the blocks read back, and the lines of the two tests. -/
structure Outcome where
  count : Nat
  verified : Nat
  writeMessages : List Message
  readMessages : List Message

def main (fuel : Nat) (device : Device κ) : Option Outcome :=
  (writeTest fuel ⟨device, 0, 0, []⟩).map fun written =>
    let read := readTest written.device written.count ⟨0, 0, []⟩
    ⟨written.count, read.i, written.messages, read.messages⟩

end

/-! ## Offsets -/

/-- The offset of a block. -/
def offsetOf (n : Nat) : Int := toLong (4096 * n)

theorem offsetOf_of_lt {n : Nat} (hn : n < 2 ^ 51) : offsetOf n = 4096 * n :=
  toLong_of_lt (by omega) (by omega)

theorem offsetOf_succ {n : Nat} (hn : n < 2 ^ 51) :
    toLong (offsetOf n + 4096) = offsetOf (n + 1) := by
  rw [offsetOf_of_lt hn, offsetOf]
  congr 1

/-- After `2 ^ 51` blocks the offset is negative. -/
theorem offsetOf_last : offsetOf (2 ^ 51) < 0 := by decide

theorem blockAt_offsetOf {n : Nat} (hn : n < 2 ^ 51) : blockAt (offsetOf n) = n := by
  rw [offsetOf_of_lt hn, blockAt]
  omega

/-! ## The write test -/

/-- How many blocks can be written. -/
def Device.blocks {κ : Type} (device : Device κ) : Nat := min device.capacity (2 ^ 51)

theorem Device.lt_blocks_iff {κ : Type} {device : Device κ} {n : Nat} :
    n < device.blocks ↔ n < device.capacity ∧ n < 2 ^ 51 := Nat.lt_min

section

variable {κ : Type} [DecidableEq κ]

/-- The device after `n` writes. -/
def Device.after (device : Device κ) (n : Nat) : Device κ :=
  { device with
    contents := stored device.place (fun i => stamp (offsetOf i)) device.contents n }

/-- The write test has written `n` blocks. -/
structure WriteTest.Wrote (device : Device κ) (n : Nat) (test : WriteTest κ) : Prop where
  device : test.device = device.after n
  offset : test.offset = offsetOf n
  count : test.count = n

variable {device : Device κ} {n : Nat} {test : WriteTest κ}

theorem Device.write_after (hn : n < device.blocks) :
    (device.after n).write (offsetOf n) (stamp (offsetOf n)) = some (device.after (n + 1)) := by
  obtain ⟨hCapacity, hSmall⟩ := Device.lt_blocks_iff.mp hn
  rw [Device.write, blockAt_offsetOf hSmall]
  refine (if_pos hCapacity).trans ?_
  exact congrArg (fun contents => some { device with contents := contents }) update_stored

theorem WriteTest.Wrote.next (hWrote : test.Wrote device n) (hn : n < device.blocks) :
    (test.next (device.after (n + 1))).Wrote device (n + 1) := by
  obtain ⟨-, hSmall⟩ := Device.lt_blocks_iff.mp hn
  refine ⟨rfl, ?_, ?_⟩
  · show toLong (test.offset + 4096) = offsetOf (n + 1)
    rw [hWrote.offset]
    exact offsetOf_succ hSmall
  · show (test.count + 1) % 2 ^ 64 = n + 1
    rw [hWrote.count]
    omega

theorem writeTest_round (hWrote : test.Wrote device n) (hn : n < device.blocks) (fuel : Nat) :
    writeTest (fuel + 1) test = writeTest fuel (test.next (device.after (n + 1))) := by
  obtain ⟨-, hSmall⟩ := Device.lt_blocks_iff.mp hn
  have hSeek : ¬ test.offset < 0 := by
    rw [hWrote.offset, offsetOf_of_lt hSmall]
    omega
  rw [writeTest, if_neg hSeek, hWrote.device, hWrote.offset, Device.write_after hn]
  rfl

theorem writeTest_stops (hWrote : test.Wrote device device.blocks) :
    ∃ message, ∀ fuel, writeTest (fuel + 1) test = some (test.prints message) := by
  by_cases hSeek : test.offset < 0
  · refine ⟨.seekFailed test.offset, fun fuel => ?_⟩
    rw [writeTest, if_pos hSeek]
  · refine ⟨.writeFailed test.offset, fun fuel => ?_⟩
    have hSmall : device.blocks < 2 ^ 51 := by
      rcases Nat.lt_or_ge device.blocks (2 ^ 51) with hSmall | hLarge
      · exact hSmall
      · have hLast : device.blocks = 2 ^ 51 := Nat.le_antisymm (Nat.min_le_right _ _) hLarge
        rw [hWrote.offset, hLast] at hSeek
        exact absurd offsetOf_last hSeek
    have hFull : ¬ device.blocks < device.capacity :=
      fun hCapacity => lt_irrefl _ (Device.lt_blocks_iff.mpr ⟨hCapacity, hSmall⟩)
    have hWrite : test.device.write test.offset (stamp test.offset) = none := by
      rw [hWrote.device, hWrote.offset, Device.write, blockAt_offsetOf hSmall]
      exact if_neg hFull
    rw [writeTest, if_neg hSeek, hWrite]
    rfl

/-- The write test ends after the last block that can be written. -/
theorem writeTest_ends (hn : n ≤ device.blocks) (hWrote : test.Wrote device n) :
    ∃ written, written.Wrote device device.blocks ∧
      ∀ fuel, device.blocks - n < fuel → writeTest fuel test = some written := by
  obtain ⟨rounds, hRounds⟩ := Nat.exists_eq_add_of_le hn
  induction rounds generalizing n test with
  | zero =>
    obtain rfl : device.blocks = n := hRounds
    obtain ⟨message, hStops⟩ := writeTest_stops hWrote
    refine ⟨test.prints message, ⟨hWrote.device, hWrote.offset, hWrote.count⟩, ?_⟩
    intro fuel hFuel
    cases fuel with
    | zero => omega
    | succ fuel => exact hStops fuel
  | succ rounds ih =>
    have hLt : n < device.blocks := by omega
    obtain ⟨written, hWritten, hEnds⟩ := ih hLt (hWrote.next hLt) (by omega)
    refine ⟨written, hWritten, ?_⟩
    intro fuel hFuel
    cases fuel with
    | zero => omega
    | succ fuel =>
      rw [writeTest_round hWrote hLt]
      exact hEnds fuel (by omega)

end

end DebugCode.Iotest
