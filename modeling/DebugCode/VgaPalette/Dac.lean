import Mathlib.Logic.Function.Basic
import Mathlib.Tactic.Common

/-!
# The palette of the VGA, and vga.c

The palette has 256 entries of three 6 bit components. A byte written to port `0x3c8` selects an
entry; three bytes written to port `0x3c9` are its red, green and blue, of which the low 6 bits
count, and with the third one the entry changes and the next one is selected.

* `write_entry`: an index and three components set one entry, from every state of the palette.
* `palette_painted`: the same colour for the first `n` entries.
* `main_palette`: what `vga.c` does to the palette.
-/

namespace DebugCode.VgaPalette

def indexPort : BitVec 16 := 0x3c8

def dataPort : BitVec 16 := 0x3c9

structure Colour where
  red : BitVec 6
  green : BitVec 6
  blue : BitVec 6
  deriving DecidableEq

/-- The components written so far to the entry selected. -/
inductive Latch
  | empty
  | red (r : BitVec 6)
  | green (r g : BitVec 6)

structure Dac where
  address : BitVec 8
  latch : Latch
  palette : BitVec 8 → Colour

/-- A byte written to a port. -/
structure Write where
  port : BitVec 16
  value : BitVec 8
  deriving DecidableEq

namespace Dac

def component (dac : Dac) (v : BitVec 6) : Dac :=
  match dac.latch with
  | .empty => { dac with latch := .red v }
  | .red r => { dac with latch := .green r v }
  | .green r g =>
    { address := dac.address + 1, latch := .empty,
      palette := Function.update dac.palette dac.address ⟨r, g, v⟩ }

def write (dac : Dac) (w : Write) : Dac :=
  if w.port = indexPort then { dac with address := w.value, latch := .empty }
  else if w.port = dataPort then dac.component (w.value.setWidth 6)
  else dac

/-- The palette after some writes. -/
def after (dac : Dac) (log : List Write) : Dac := log.foldl write dac

theorem after_append (dac : Dac) (log log' : List Write) :
    dac.after (log ++ log') = (dac.after log).after log' := List.foldl_append

end Dac

/-- The three bytes of a colour. -/
structure Bytes where
  red : BitVec 8
  green : BitVec 8
  blue : BitVec 8

/-- What is seen of them. -/
def Bytes.colour (c : Bytes) : Colour :=
  ⟨c.red.setWidth 6, c.green.setWidth 6, c.blue.setWidth 6⟩

def Bytes.writes (c : Bytes) : List Write :=
  [⟨dataPort, c.red⟩, ⟨dataPort, c.green⟩, ⟨dataPort, c.blue⟩]

/-- The writes that set an entry. -/
def entry (index : BitVec 8) (c : Bytes) : List Write := ⟨indexPort, index⟩ :: c.writes

/-- The writes that set the first `n` entries to a colour, one after the other. -/
def painted (n : ℕ) (c : Bytes) : List Write :=
  (List.range n).flatMap fun i => entry (BitVec.ofNat 8 i) c

theorem painted_succ (n : ℕ) (c : Bytes) :
    painted (n + 1) c = painted n c ++ entry (BitVec.ofNat 8 n) c := by
  rw [painted, List.range_succ, List.flatMap_append, List.flatMap_singleton]
  rfl

theorem write_entry (dac : Dac) (index : BitVec 8) (c : Bytes) :
    dac.after (entry index c) =
      ⟨index + 1, .empty, Function.update dac.palette index c.colour⟩ := rfl

theorem palette_painted {n : ℕ} (hEntries : n ≤ 256) (dac : Dac) (c : Bytes) (i : BitVec 8) :
    (dac.after (painted n c)).palette i =
      if i.toNat < n then c.colour else dac.palette i := by
  induction n with
  | zero => rfl
  | succ n ih =>
    rw [painted_succ, Dac.after_append, write_entry]
    show Function.update _ _ _ i = _
    by_cases hHere : i = BitVec.ofNat 8 n
    · have hIndex : i.toNat = n := by
        rw [hHere, BitVec.toNat_ofNat]
        omega
      rw [if_pos (by omega), hHere, Function.update_self]
    · have hOther : i.toNat ≠ n := by
        intro hIndex
        apply hHere
        rw [← hIndex, BitVec.ofNat_toNat, BitVec.setWidth_eq]
      rw [Function.update_of_ne hHere, ih (by omega)]
      exact if_congr (by omega) rfl rfl

/-! ## vga.c -/

/-- `outb` of an `int` writes its low byte. -/
def setVgaRegisters (index red green blue : ℕ) : List Write :=
  [⟨indexPort, BitVec.ofNat 8 index⟩, ⟨dataPort, BitVec.ofNat 8 red⟩,
    ⟨dataPort, BitVec.ofNat 8 green⟩, ⟨dataPort, BitVec.ofNat 8 blue⟩]

/-- `for (i=0;i<128;i++)`, from `i` on. -/
def mainLoop (i : ℕ) : List Write :=
  if i < 128 then setVgaRegisters i 0x80 0x40 0x020 ++ mainLoop (i + 1) else []
termination_by 128 - i

def main : List Write := mainLoop 0

theorem painted_append_mainLoop {i : ℕ} (hLe : i ≤ 128) :
    painted i ⟨0x80, 0x40, 0x20⟩ ++ mainLoop i = painted 128 ⟨0x80, 0x40, 0x20⟩ := by
  induction hLeft : 128 - i generalizing i with
  | zero =>
    obtain rfl : i = 128 := by omega
    rw [mainLoop, if_neg (Nat.lt_irrefl 128), List.append_nil]
  | succ k ih =>
    have hNext : i + 1 ≤ 128 := by omega
    have hRest := ih hNext (by omega)
    rw [painted_succ] at hRest
    rw [mainLoop, if_pos (by omega), ← List.append_assoc]
    exact hRest

theorem main_eq_painted : main = painted 128 ⟨0x80, 0x40, 0x20⟩ := by
  rw [← painted_append_mainLoop (Nat.zero_le 128), main, painted, List.range_zero,
    List.flatMap_nil, List.nil_append]

/-- Of the components `0x80`, `0x40` and `0x20` only the last one has any of the low 6 bits: the
first half of the palette becomes blue, and the other half stays as it was. -/
theorem main_palette (dac : Dac) (i : BitVec 8) :
    (dac.after main).palette i = if i.toNat < 128 then ⟨0, 0, 0x20⟩ else dac.palette i := by
  have hColour : (⟨0x80, 0x40, 0x20⟩ : Bytes).colour = ⟨0, 0, 0x20⟩ := by decide
  rw [main_eq_painted, palette_painted (by omega), hColour]

end DebugCode.VgaPalette
