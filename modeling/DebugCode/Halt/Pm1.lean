import Mathlib.Data.List.Basic
import Mathlib.Tactic.Common

/-!
# Power management registers

`halt.c` puts a machine to sleep through the event and control registers of ACPI, which come in one
or two blocks. A status bit of the event register is cleared by writing one to it, and the upper
half of the register holds the enable bits. Writing one to the sleep enable bit of the control
register puts the machine to sleep, in the state that the type bits of the same write say.

* `main_controls`: each control block is told to sleep once, with type 7.
* `main_events`: the wake status is cleared in each block, and no other status bit. The write that
  does it writes zeros to the enable bits.
* `main_halts`: all that `main` leaves, with the condition under which the enable bits survive.
-/

namespace DebugCode.Halt

/-! ## The registers -/

/-- The event register of a block. -/
structure Event where
  status : BitVec 16
  enable : BitVec 16

/-- The control register of a block, with the sleep types it was told to enter. -/
structure Control where
  value : BitVec 32
  slept : List (BitVec 3)

/-- A register at an I/O port. -/
structure Port (β : Type) where
  inl : β → BitVec 32
  outl : BitVec 32 → β → β

/-- One is written to the status bits to be cleared. -/
def eventPort : Port Event where
  inl e := e.enable ++ e.status
  outl v e := ⟨e.status &&& ~~~(v.setWidth 16), (v >>> 16).setWidth 16⟩

/-- The sleep enable bit reads as zero. -/
def controlPort : Port Control where
  inl c := c.value &&& ~~~0x2000
  outl v c := ⟨v, if v.getLsbD 13 then c.slept ++ [(v >>> 10).setWidth 3] else c.slept⟩

/-- The register in the block a, and in the block b if its port is not zero. -/
structure Pair (β : Type) where
  a : β
  b : Option β

section

variable {β : Type} (port : Port β)

def portWrite (val : BitVec 32) (p : Pair β) : Pair β :=
  ⟨port.outl val p.a, p.b.map (port.outl val)⟩

def portRead (p : Pair β) : BitVec 32 :=
  match p.b with
  | some b => port.inl p.a ||| port.inl b
  | none => port.inl p.a

end

/-! ## main -/

def wakeStatusMask : BitVec 32 := 0x8000

def sleepTypeMask : BitVec 32 := 0x1c00

def sleepEnableMask : BitVec 32 := 0x2000

def s5State : BitVec 32 := 0x7

/-- `val` in step 1. -/
def wakeStatus (events : Pair Event) : BitVec 32 := portRead eventPort events &&& wakeStatusMask

/-- `val` at the end of step 2. -/
def sleepType (controls : Pair Control) : BitVec 32 :=
  (portRead controlPort controls &&& ~~~(sleepEnableMask ||| sleepTypeMask)) ||| (s5State <<< 10)

/-- `main`, when access to the ports is `granted`. -/
def main (granted : Bool) (events : Pair Event) (controls : Pair Control) :
    Pair Event × Pair Control :=
  if granted then
    let events := if wakeStatus events ≠ 0 then portWrite eventPort (wakeStatus events) events
      else events
    let val := sleepType controls
    let controls := portWrite controlPort val controls
    (events, portWrite controlPort (val ||| sleepEnableMask) controls)
  else (events, controls)

/-! ## The blocks -/

/-- The blocks of a pair. -/
def Pair.blocks {β : Type} (p : Pair β) : List β := p.a :: p.b.toList

/-- Each block in its place. -/
def Pair.map {β : Type} (f : β → β) (p : Pair β) : Pair β := ⟨f p.a, p.b.map f⟩

theorem Pair.blocks_map {β : Type} (f : β → β) (p : Pair β) :
    (p.map f).blocks = p.blocks.map f := by
  obtain ⟨a, b⟩ := p
  cases b with
  | none => rfl
  | some b => rfl

theorem portWrite_eq_map {β : Type} (port : Port β) (val : BitVec 32) (p : Pair β) :
    portWrite port val p = p.map (port.outl val) := rfl

theorem Pair.map_map {β : Type} (f g : β → β) (p : Pair β) :
    (p.map f).map g = p.map (g ∘ f) := by
  rw [map, map, map, Option.map_map]
  rfl

/-- A bit that is read is set in one of the blocks. -/
theorem portRead_getLsbD {β : Type} (port : Port β) (p : Pair β) (i : ℕ) :
    (portRead port p).getLsbD i = true ↔ ∃ block ∈ p.blocks, (port.inl block).getLsbD i = true := by
  obtain ⟨a, b⟩ := p
  cases b with
  | none => simp [portRead, Pair.blocks]
  | some b => simp [portRead, Pair.blocks, BitVec.getLsbD_or]

/-! ## The control registers -/

/-- The bits of the value in step 2: type 7, and the other bits of the blocks. -/
theorem sleepType_getLsbD (controls : Pair Control) {i : ℕ} (hi : i < 32) :
    (sleepType controls).getLsbD i = true ↔ (10 ≤ i ∧ i < 13) ∨
      (¬ (10 ≤ i ∧ i < 14) ∧ ∃ c ∈ controls.blocks, c.value.getLsbD i = true) := by
  have hMask : ∀ j < 32, (~~~(sleepEnableMask ||| sleepTypeMask)).getLsbD j =
      decide (¬ (10 ≤ j ∧ j < 14)) := by decide
  have hType : ∀ j < 32, (s5State <<< 10).getLsbD j = decide (10 ≤ j ∧ j < 13) := by decide
  have hEnable : ∀ j < 32, (~~~0x2000 : BitVec 32).getLsbD j = decide (j ≠ 13) := by decide
  have hRead : ¬ (10 ≤ i ∧ i < 14) → ((portRead controlPort controls).getLsbD i = true ↔
      ∃ c ∈ controls.blocks, c.value.getLsbD i = true) := by
    intro hOther
    have hNot : i ≠ 13 := by omega
    rw [portRead_getLsbD]
    simp only [controlPort, BitVec.getLsbD_and, hEnable i hi, hNot, ne_eq, not_false_eq_true,
      decide_true, Bool.and_true]
  rw [sleepType, BitVec.getLsbD_or, BitVec.getLsbD_and, hMask i hi, hType i hi, Bool.or_eq_true,
    Bool.and_eq_true, decide_eq_true_eq, decide_eq_true_eq]
  constructor
  · rintro (⟨hBit, hOther⟩ | hField)
    · exact Or.inr ⟨hOther, (hRead hOther).mp hBit⟩
    · exact Or.inl hField
  · rintro (hField | ⟨hOther, hBlock⟩)
    · exact Or.inr hField
    · exact Or.inl ⟨(hRead hOther).mpr hBlock, hOther⟩

/-- The two writes of `main` to a control register. -/
theorem outl_outl_sleep (controls : Pair Control) (c : Control) :
    controlPort.outl (sleepType controls ||| sleepEnableMask)
      (controlPort.outl (sleepType controls) c) =
        ⟨sleepType controls ||| sleepEnableMask, c.slept ++ [7]⟩ := by
  have hFirst : (sleepType controls).getLsbD 13 = false := by
    rw [← Bool.not_eq_true, sleepType_getLsbD controls (by decide)]
    omega
  have hSecond : (sleepType controls ||| sleepEnableMask).getLsbD 13 = true := by
    rw [BitVec.getLsbD_or, Bool.or_eq_true]
    exact Or.inr (by decide)
  have hType : ((sleepType controls ||| sleepEnableMask) >>> 10).setWidth 3 = 7#3 := by
    apply BitVec.eq_of_getLsbD_eq
    intro i hi
    have hBit : (sleepType controls).getLsbD (10 + i) = true :=
      (sleepType_getLsbD controls (by omega)).mpr (Or.inl (by omega))
    have hSeven : ∀ j < 3, (7#3).getLsbD j = true := by decide
    rw [hSeven i hi, BitVec.getLsbD_setWidth, BitVec.getLsbD_ushiftRight, BitVec.getLsbD_or, hBit]
    simpa using hi
  rw [controlPort]
  dsimp only
  rw [hFirst, hSecond, hType]
  rfl

/-! ## The event registers -/

/-- The wake status, as `val` has it. -/
theorem wakeStatus_cases (events : Pair Event) :
    (wakeStatus events = 0 ∧ ∀ e ∈ events.blocks, e.status.getLsbD 15 = false) ∨
      (wakeStatus events = 0x8000 ∧ ∃ e ∈ events.blocks, e.status.getLsbD 15 = true) := by
  have hMask : ∀ i < 32, wakeStatusMask.getLsbD i = decide (i = 15) := by decide
  have hRead : (portRead eventPort events).getLsbD 15 = true ↔
      ∃ e ∈ events.blocks, e.status.getLsbD 15 = true := by
    rw [portRead_getLsbD]
    simp only [eventPort, BitVec.getLsbD_append]
    simp
  have hBits : ∀ i < 32, (wakeStatus events).getLsbD i =
      (decide (i = 15) && (portRead eventPort events).getLsbD 15) := by
    intro i hi
    rw [wakeStatus, BitVec.getLsbD_and, hMask i hi, Bool.and_comm]
    by_cases hWake : i = 15
    · rw [hWake]
    · simp [hWake]
  cases hSet : (portRead eventPort events).getLsbD 15 with
  | false =>
    refine Or.inl ⟨?_, ?_⟩
    · apply BitVec.eq_of_getLsbD_eq
      intro i hi
      rw [hBits i hi, hSet]
      simp
    · intro e he
      rw [← Bool.not_eq_true]
      intro hStatus
      rw [hRead.mpr ⟨e, he, hStatus⟩] at hSet
      cases hSet
  | true =>
    refine Or.inr ⟨?_, hRead.mp hSet⟩
    apply BitVec.eq_of_getLsbD_eq
    intro i hi
    rw [hBits i hi, hSet, Bool.and_true]
    exact (hMask i hi).symm

/-- A status without the wake bit. -/
theorem and_not_wake {status : BitVec 16} (hClear : status.getLsbD 15 = false) :
    status &&& ~~~0x8000 = status := by
  have hMask : ∀ i < 16, (~~~0x8000 : BitVec 16).getLsbD i = decide (i ≠ 15) := by decide
  apply BitVec.eq_of_getLsbD_eq
  intro i hi
  rw [BitVec.getLsbD_and, hMask i hi]
  by_cases hWake : i = 15
  · rw [hWake, hClear, Bool.false_and]
  · simp [hWake]

/-- The write of step 1 to an event register. -/
theorem outl_wake (e : Event) :
    eventPort.outl 0x8000 e = ⟨e.status &&& ~~~0x8000, 0⟩ := by
  rw [eventPort]
  congr 1

/-! ## The whole program -/

section

variable (events : Pair Event) (controls : Pair Control)

theorem main_controls : (main true events controls).2 =
    controls.map fun c => ⟨sleepType controls ||| sleepEnableMask, c.slept ++ [7]⟩ := by
  rw [main, if_pos rfl]
  dsimp only
  rw [portWrite_eq_map, portWrite_eq_map, Pair.map_map]
  congr 1
  funext c
  exact outl_outl_sleep controls c

theorem main_events : (main true events controls).1.blocks = events.blocks.map fun e =>
    ⟨e.status &&& ~~~0x8000, if wakeStatus events = 0 then e.enable else 0⟩ := by
  rw [main, if_pos rfl]
  dsimp only
  rcases wakeStatus_cases events with ⟨hZero, hClear⟩ | ⟨hSet, -⟩
  · rw [if_neg (not_not.mpr hZero)]
    simp only [hZero, if_true]
    conv_lhs => rw [← List.map_id events.blocks]
    apply List.map_congr_left
    intro e he
    rw [and_not_wake (hClear e he)]
    rfl
  · have hNonzero : wakeStatus events ≠ 0 := by
      rw [hSet]
      decide
    rw [if_pos hNonzero, portWrite_eq_map, Pair.blocks_map, hSet]
    simp only [(show (0x8000 : BitVec 32) ≠ 0 by decide), if_false]
    apply List.map_congr_left
    intro e _
    exact outl_wake e

/-- What `main` leaves in the blocks. -/
structure Halts (after : Pair Event × Pair Control) : Prop where
  slept : after.2.blocks.map Control.slept = controls.blocks.map fun c => c.slept ++ [7]
  kept : ∀ c ∈ after.2.blocks, ∀ i < 32, ¬ (10 ≤ i ∧ i < 14) →
    (c.value.getLsbD i = true ↔ ∃ d ∈ controls.blocks, d.value.getLsbD i = true)
  status : after.1.blocks.map Event.status = events.blocks.map fun e => e.status &&& ~~~0x8000
  enable : after.1.blocks.map Event.enable = events.blocks.map Event.enable ↔
    (∀ e ∈ events.blocks, e.status.getLsbD 15 = false) ∨ ∀ e ∈ events.blocks, e.enable = 0

/-- Each control block is told once to enter the state of type 7, with the other bits of both
blocks; the wake status is cleared and no other status. But all enable bits of the events are lost
when a wake status was set, unless there were none. -/
theorem main_halts : Halts events controls (main true events controls) where
  slept := by
    rw [main_controls, Pair.blocks_map, List.map_map]
    rfl
  kept := by
    have hMask : ∀ j < 32, ¬ (10 ≤ j ∧ j < 14) → sleepEnableMask.getLsbD j = false := by decide
    intro c hc i hi hOther
    rw [main_controls, Pair.blocks_map] at hc
    obtain ⟨d, -, rfl⟩ := List.mem_map.mp hc
    rw [BitVec.getLsbD_or, hMask i hi hOther, Bool.or_false, sleepType_getLsbD controls hi]
    constructor
    · rintro (hField | hBlock)
      · omega
      · exact hBlock.2
    · exact fun hBlock => Or.inr ⟨hOther, hBlock⟩
  status := by
    rw [main_events, List.map_map]
    rfl
  enable := by
    rw [main_events, List.map_map, List.map_inj_left]
    rcases wakeStatus_cases events with ⟨hZero, hClear⟩ | ⟨hSet, e, he, hStatus⟩
    · exact iff_of_true (fun e _ => if_pos hZero) (Or.inl hClear)
    · have hNonzero : wakeStatus events ≠ 0 := by
        rw [hSet]
        decide
      constructor
      · intro hKept
        exact Or.inr fun d hd => (hKept d hd).symm.trans (if_neg hNonzero)
      · rintro (hClear | hNone) d hd
        · rw [hClear e he] at hStatus
          cases hStatus
        · exact (if_neg hNonzero).trans (hNone d hd).symm

end

end DebugCode.Halt
