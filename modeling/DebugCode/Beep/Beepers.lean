import DebugCode.Lib.X86

/-!
# The two beepers

`beep` of `beep.c` and `beep_on` of `beep.S` load a divisor of 1193181 Hz into counter 2 of the
timer, as two bytes, and switch the speaker on.

* `beepOn_returns`: what `beep_on` does on the ports.
* `written_beepOn_eq_beep`: both write the same three bytes to the timer, for every frequency.
* `programsTone_iff`: the timer divides by the rounded quotient for the frequencies from 19 Hz to
  1193181 Hz. Below, the quotient has more than 16 bits; above, it is zero.
* `reaches_beep440hz`: `beep_440hz` has no return, and comes to the end of the text.
-/

namespace DebugCode.Beep

open Lib.X86 StateTransition

def pitControl : BitVec 8 := 0x61

def pitCounter : BitVec 8 := 0x42

/-- The traffic of `beep` on the ports, with what the read of `PIT_CONTROL` gives. -/
def beep (hz : BitVec 32) (dummy : BitVec 8) : List Event :=
  let (tone, enable) : List Event × BitVec 32 :=
    if hz = 0 then ([], 0x00)
    else
      let div : BitVec 16 := (1193181 / hz).setWidth 16
      ([.output 0x43 0xb6, .output 0x42 (div.setWidth 8), .output 0x42 ((div >>> 8).setWidth 8)],
        0x03)
  tone ++ [.input 0x61 dummy, .output 0x61 (enable.setWidth 8)]

inductive Label
  | beepOff | beepOn | beep440hz
  deriving DecidableEq

def tinyWait : List (Instr Label) := [.movb (.imm 0) .eax, .outb 0x80]

/-- The text of `beep.S`. -/
def beepS : List (Instr Label) := List.flatten
  [[.label .beepOff,
    .inb pitControl],
    tinyWait,
    [.movb (.imm 0) .eax,
    .outb pitControl],
    tinyWait,
    [.ret],
  [.label .beepOn,
    .movl (.reg .eax) .edi,
    .movl (.imm 1193181) .ebx,
    .movl (.reg .ebx) .eax,
    .movl (.imm 0) .edx,
    .divl .edi,
    .movl (.reg .eax) .ebx,
    .movb (.imm 0xb6) .eax,
    .outb 0x43],
    tinyWait,
    [.movb (.reg .ebx) .eax,
    .outb pitCounter],
    tinyWait,
    [.shrw 0x8 .ebx,
    .movl (.reg .ebx) .eax,
    .outb pitCounter,
    .inb pitControl],
    tinyWait,
    [.movb (.imm 0x03) .eax,
    .outb pitControl],
    tinyWait,
    [.ret],
  [.label .beep440hz,
    .movl (.imm 440) .eax,
    .call .beepOn]]

section BeepOn

variable {regs : Regs} {zf : Bool} {callers : List (List (Instr Label))}
  {inputs : List (BitVec 8)} {log : List Event}

/-- The division leaves the quotient in `ebx`. -/
theorem reaches_divided (hHz : regs .eax ≠ 0) :
    ∃ regs', Reaches (step beepS) ⟨regs, zf, textFrom .beepOn beepS, callers, inputs, log⟩
        ⟨regs', zf, (textFrom .beepOn beepS).drop 7, callers, inputs, log⟩ ∧
      regs' .ebx = 1193181 / regs .eax :=
  ⟨_, .head step_label (.head step_movl_reg (.head step_movl (.head step_movl_reg
    (.head step_movl (.head (step_divl rfl hHz) (.single step_movl_reg)))))), rfl⟩

/-- The control byte and the low byte of the quotient. -/
theorem reaches_low {q : BitVec 32} (hQuotient : regs .ebx = q) :
    ∃ regs', Reaches (step beepS)
      ⟨regs, zf, (textFrom .beepOn beepS).drop 7, callers, inputs, log⟩
      ⟨regs', zf, (textFrom .beepOn beepS).drop 15, callers, inputs, log ++ [.output 0x43 0xb6] ++
        [.output 0x80 0] ++ [.output pitCounter (q.setWidth 8)] ++ [.output 0x80 0]⟩ ∧
      regs' .ebx = q := by
  subst hQuotient
  exact ⟨_, reaches_output.trans (reaches_output.trans (reaches_output.trans reaches_output)), rfl⟩

/-- The high byte, from a shift of the low word of `ebx`. -/
theorem reaches_high {q : BitVec 32} (hQuotient : regs .ebx = q) :
    ∃ regs' zf', Reaches (step beepS)
      ⟨regs, zf, (textFrom .beepOn beepS).drop 15, callers, inputs, log⟩
      ⟨regs', zf', (textFrom .beepOn beepS).drop 18, callers, inputs,
        log ++ [.output pitCounter ((q >>> 8).setWidth 8)]⟩ := by
  have hByte : (setLow q (q.setWidth 16 >>> 8)).setWidth 8 = (q >>> 8).setWidth 8 := by
    rw [setWidth_setLow (by decide) (by decide), setWidth_shiftRight_setWidth]
  subst hQuotient
  rw [← hByte]
  exact ⟨_, _, .head step_shrw (.head step_movl_reg (.single step_outb))⟩

/-- The speaker is switched on, and `beep_on` goes back to its caller. -/
theorem reaches_enabled {caller : List (Instr Label)} {v : BitVec 8} :
    ∃ regs', Reaches (step beepS)
      ⟨regs, zf, (textFrom .beepOn beepS).drop 18, caller :: callers, v :: inputs, log⟩
      ⟨regs', zf, caller, callers, inputs, log ++ [.input pitControl v] ++ [.output 0x80 0] ++
        [.output pitControl 0x03] ++ [.output 0x80 0]⟩ :=
  ⟨_, .head step_inb (reaches_output.trans (reaches_output.trans (reaches_output.tail step_ret)))⟩

/-- The traffic of `beep_on` on the ports. -/
def beepOnLog (hz : BitVec 32) (dummy : BitVec 8) : List Event :=
  [.output 0x43 0xb6, .output 0x80 0, .output pitCounter ((1193181 / hz).setWidth 8),
    .output 0x80 0, .output pitCounter (((1193181 / hz) >>> 8).setWidth 8),
    .input pitControl dummy, .output 0x80 0, .output pitControl 0x03, .output 0x80 0]

/-- A call of `beep_on` comes back, for every frequency but zero. -/
theorem reaches_beepOn {caller : List (Instr Label)} {v : BitVec 8} (hHz : regs .eax ≠ 0) :
    ∃ regs' zf', Reaches (step beepS)
      ⟨regs, zf, textFrom .beepOn beepS, caller :: callers, v :: inputs, log⟩
      ⟨regs', zf', caller, callers, inputs, log ++ beepOnLog (regs .eax) v⟩ := by
  obtain ⟨regs₁, hDivided, hQuotient⟩ := reaches_divided hHz
  obtain ⟨regs₂, hLow, hQuotient⟩ := reaches_low hQuotient
  obtain ⟨regs₃, zf', hHigh⟩ := reaches_high hQuotient
  obtain ⟨regs', hEnabled⟩ := reaches_enabled
  refine ⟨regs', zf', ?_⟩
  have hAll : Reaches (step beepS)
      ⟨regs, zf, textFrom .beepOn beepS, caller :: callers, v :: inputs, log⟩ _ :=
    hDivided.trans (hLow.trans (hHigh.trans hEnabled))
  rw [beepOnLog]
  simp only [List.append_assoc] at hAll
  exact hAll

end BeepOn

variable {regs : Regs} {zf : Bool} {dummy : BitVec 8}

theorem beepOn_returns (hHz : regs .eax ≠ 0) :
    ∃ t, Returns beepS (start beepS .beepOn regs zf [dummy]) t ∧
      t.log = beepOnLog (regs .eax) dummy := by
  obtain ⟨regs', zf', hReaches⟩ := reaches_beepOn hHz
  exact ⟨_, (Returns.iff_of_reaches hReaches).mpr (returns_self rfl rfl), rfl⟩

/-- The division by a frequency of zero faults. -/
theorem beepOn_not_returns (hHz : regs .eax = 0) (t : State Label) :
    ¬ Returns beepS (start beepS .beepOn regs zf [dummy]) t := by
  have hReaches : Reaches (step beepS) (start beepS .beepOn regs zf [dummy]) _ :=
    .head step_label (.head step_movl_reg (.head step_movl (.head step_movl_reg
      (.single step_movl))))
  exact not_returns hReaches (step_divl_zero hHz) (List.cons_ne_nil _ _)

/-- `beep_440hz` plays its tone and comes to the end of the text with its caller still waiting. -/
theorem reaches_beep440hz :
    ∃ s, Reaches (step beepS) (start beepS .beep440hz regs zf [dummy]) s ∧
      s.log = beepOnLog 440 dummy ∧ s.text = [] ∧ s.callers = [[]] := by
  have hHz : Function.update regs .eax 440 .eax ≠ 0 := by
    rw [Function.update_self]
    decide
  obtain ⟨regs', zf', hReaches⟩ := reaches_beepOn hHz
  rw [Function.update_self] at hReaches
  exact ⟨_, .head step_label (.head step_movl (.head step_call hReaches)), rfl, rfl, rfl⟩

/-! ## The divisor -/

/-- The ports that set the divisor of the counter. -/
def timerPorts : List (BitVec 8) := [0x43, pitCounter]

/-- What the timer divides by after a low and a high byte: no count is the highest one. -/
def divisor (low high : BitVec 8) : ℕ :=
  let count := (high ++ low).toNat
  if count = 0 then 65536 else count

/-- The three bytes for the timer. -/
def tone (hz : BitVec 32) : List (BitVec 8 × BitVec 8) :=
  [(0x43, 0xb6), (pitCounter, (1193181 / hz).setWidth 8),
    (pitCounter, ((1193181 / hz) >>> 8).setWidth 8)]

theorem written_beepOnLog (hz : BitVec 32) (dummy : BitVec 8) :
    written timerPorts (beepOnLog hz dummy) = tone hz := rfl

theorem written_beep {hz : BitVec 32} (hHz : hz ≠ 0) (dummy : BitVec 8) :
    written timerPorts (beep hz dummy) = tone hz := by
  have hLow : ((1193181 / hz).setWidth 16).setWidth 8 = (1193181 / hz).setWidth 8 :=
    BitVec.setWidth_setWidth_of_le _ (by decide)
  rw [beep, if_neg hHz, tone, ← hLow, ← setWidth_shiftRight_setWidth]
  rfl

/-- The two bytes of a word are the word. -/
theorem toNat_append_lowBytes (q : BitVec 32) :
    ((q >>> 8).setWidth 8 ++ q.setWidth 8).toNat = q.toNat % 65536 := by
  have hWord : (q >>> 8).setWidth 8 ++ q.setWidth 8 = q.setWidth 16 := by
    ext i hi
    rw [BitVec.getElem_append]
    split
    · rw [BitVec.getElem_setWidth, BitVec.getElem_setWidth]
    · rw [BitVec.getElem_setWidth, BitVec.getElem_setWidth, BitVec.getLsbD_ushiftRight]
      congr 1
      omega
  rw [hWord, BitVec.toNat_setWidth]

theorem divisor_eq_iff (q : BitVec 32) :
    divisor (q.setWidth 8) ((q >>> 8).setWidth 8) = q.toNat ↔ 0 < q.toNat ∧ q.toNat ≤ 65536 := by
  have hLt := q.isLt
  rw [divisor, toNat_append_lowBytes]
  split <;> omega

/-- The quotient has 16 bits and is not zero for the frequencies in between. -/
theorem quotient_iff (n : ℕ) :
    0 < 1193181 / n ∧ 1193181 / n ≤ 65536 ↔ 19 ≤ n ∧ n ≤ 1193181 := by
  rcases Nat.eq_zero_or_pos n with rfl | hPos
  · decide
  · have hBits : 1193181 / n < 65537 ↔ 1193181 < 65537 * n := Nat.div_lt_iff_lt_mul hPos
    rw [Nat.div_pos_iff]
    omega

/-- Both beepers load the same bytes into the timer, and the timer divides by the quotient. -/
def ProgramsTone (hz : BitVec 32) : Prop :=
  ∀ (regs : Regs) (zf : Bool) (dummy : BitVec 8), regs .eax = hz →
    ∃ t control low high, Returns beepS (start beepS .beepOn regs zf [dummy]) t ∧
      written timerPorts t.log = [(0x43, control), (pitCounter, low), (pitCounter, high)] ∧
      written timerPorts (beep hz dummy) =
        [(0x43, control), (pitCounter, low), (pitCounter, high)] ∧
      divisor low high = 1193181 / hz.toNat

/-- Both beepers write the same three bytes to the timer, for every frequency but zero. -/
theorem written_beepOn_eq_beep {hz : BitVec 32} (hHz : hz ≠ 0) (hReg : regs .eax = hz) :
    ∃ t, Returns beepS (start beepS .beepOn regs zf [dummy]) t ∧
      written timerPorts t.log = tone hz ∧ written timerPorts (beep hz dummy) = tone hz := by
  subst hReg
  obtain ⟨t, hReturns, hLog⟩ := beepOn_returns hHz
  refine ⟨t, hReturns, ?_, written_beep hHz dummy⟩
  rw [hLog, written_beepOnLog]

/-- The timer gets the right divisor for the frequencies from 19 Hz to 1193181 Hz. -/
theorem programsTone_iff (hz : BitVec 32) :
    ProgramsTone hz ↔ 19 ≤ hz.toNat ∧ hz.toNat ≤ 1193181 := by
  have hQuotient : (1193181 / hz).toNat = 1193181 / hz.toNat := BitVec.toNat_udiv
  rw [← quotient_iff, ← hQuotient, ← divisor_eq_iff]
  constructor
  · intro hTone
    obtain ⟨t, control, low, high, hReturns, -, hBeep, hDivisor⟩ :=
      hTone (fun _ => hz) false 0 rfl
    have hHz : hz ≠ 0 := fun hZero => beepOn_not_returns hZero t hReturns
    rw [written_beep hHz, tone] at hBeep
    simp only [List.cons.injEq, Prod.mk.injEq, true_and, and_true] at hBeep
    obtain ⟨-, rfl, rfl⟩ := hBeep
    rw [hDivisor, hQuotient]
  · intro hDivisor regs zf dummy hReg
    have hHz : hz ≠ 0 := by
      rintro rfl
      exact absurd hDivisor (by decide)
    obtain ⟨t, hReturns, hAssembler, hC⟩ := written_beepOn_eq_beep hHz hReg
    exact ⟨t, _, _, _, hReturns, hAssembler, hC, hDivisor.trans hQuotient⟩

/-- At 18 Hz the quotient 66287 is loaded as 751. -/
theorem not_programsTone_18 : ¬ ∀ hz : BitVec 32, hz ≠ 0 → ProgramsTone hz := by
  intro hAll
  obtain ⟨t, control, low, high, -, -, hBeep, hDivisor⟩ :=
    hAll 18 (by decide) (fun _ => 18) false 0 rfl
  rw [written_beep (by decide), tone] at hBeep
  simp only [List.cons.injEq, Prod.mk.injEq, true_and, and_true] at hBeep
  obtain ⟨-, rfl, rfl⟩ := hBeep
  exact absurd hDivisor (by decide)

end DebugCode.Beep
