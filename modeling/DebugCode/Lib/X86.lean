import Mathlib.Computability.StateTransition
import Mathlib.Logic.Function.Basic
import Mathlib.Tactic.Common

/-!
# A part of the 32 bit x86

Programs of the instructions below, in the operand order of the GNU assembler, with the text
of the program as the program counter: the state holds the lines that are still ahead, and a
jump goes on with the text from a label. Of the flags there is the zero flag, the one that
`jne` tests. What reads of ports give is a list, and all traffic on the ports is written down.

* `setWidth_setLow`, `setWidth_shiftRight_setWidth`: a part of a register, written and read.
* `Returns.iff_of_reaches`: a routine returns from a state as it does from a later one.
* `not_returns`: where the machine stops elsewhere the routine does not return.
* `reaches_countDown`: a loop that counts a register down to zero ends, from every value.
* `reaches_poll_busy`, `reaches_poll_ready`: a loop that reads a port and tests the value jumps
  back or goes on.
-/

namespace DebugCode.Lib.X86

open StateTransition

/-! ## Registers -/

inductive Reg
  | eax | ebx | edx | edi
  deriving DecidableEq

abbrev Regs := Reg → BitVec 32

/-- A register with its low `w` bits replaced. -/
def setLow {w : ℕ} (old : BitVec 32) (v : BitVec w) : BitVec 32 :=
  old >>> w <<< w ||| v.setWidth 32

/-- The low bits of a register are those of the value last written there. -/
theorem setWidth_setLow {u w : ℕ} (hPart : u ≤ w) (hWidth : w ≤ 32) (old : BitVec 32)
    (v : BitVec w) : (setLow old v).setWidth u = v.setWidth u := by
  ext i hi
  have hLow : i < w := by omega
  have hReg : i < 32 := by omega
  rw [setLow, BitVec.getElem_setWidth, BitVec.getElem_setWidth, BitVec.getLsbD_or,
    BitVec.getLsbD_shiftLeft, BitVec.getLsbD_setWidth]
  simp only [hLow, hReg, decide_true, Bool.not_true, Bool.and_false, Bool.false_and,
    Bool.false_or, Bool.true_and]

/-- The low byte of a shifted word is the second byte of the register. -/
theorem setWidth_shiftRight_setWidth (old : BitVec 32) :
    (old.setWidth 16 >>> 8).setWidth 8 = (old >>> 8).setWidth 8 := by
  ext i hi
  have hWord : 8 + i < 16 := by omega
  rw [BitVec.getElem_setWidth, BitVec.getElem_setWidth, BitVec.getLsbD_ushiftRight,
    BitVec.getLsbD_ushiftRight, BitVec.getLsbD_setWidth]
  simp only [hWord, decide_true, Bool.true_and]

/-! ## Instructions -/

/-- An immediate value of `w` bits or the low `w` bits of a register. -/
inductive Operand (w : ℕ)
  | imm (v : BitVec w)
  | reg (r : Reg)

def Operand.value {w : ℕ} (regs : Regs) : Operand w → BitVec w
  | .imm v => v
  | .reg r => (regs r).setWidth w

/-- A line of the text of a program with labels from `L`. -/
inductive Instr (L : Type)
  | label (l : L)
  | movl (src : Operand 32) (dst : Reg)
  | movb (src : Operand 8) (dst : Reg)
  | subl (src : Operand 32) (dst : Reg)
  | cmpl (src : Operand 32) (dst : Reg)
  | testb (src : Operand 8) (dst : Reg)
  /-- by a count from 1 to 31 -/
  | shrw (count : ℕ) (dst : Reg)
  | divl (src : Reg)
  /-- `inb port, %al` -/
  | inb (port : BitVec 8)
  /-- `outb %al, port` -/
  | outb (port : BitVec 8)
  | jne (l : L)
  | call (l : L)
  | ret

/-- A byte that went over a port. -/
inductive Event
  | input (port value : BitVec 8)
  | output (port value : BitVec 8)
  deriving DecidableEq

/-- The bytes written to one of the ports, in order, with the port. -/
def written (ports : List (BitVec 8)) (log : List Event) : List (BitVec 8 × BitVec 8) :=
  log.filterMap fun
    | .input _ _ => none
    | .output port v => if port ∈ ports then some (port, v) else none

variable {L : Type} [DecidableEq L]

/-- The text of a program from a label on. -/
def textFrom (l : L) : List (Instr L) → List (Instr L)
  | [] => []
  | .label m :: is => if m = l then .label m :: is else textFrom l is
  | _ :: is => textFrom l is

structure State (L : Type) where
  regs : Regs
  /-- the zero flag -/
  zf : Bool
  /-- the lines ahead -/
  text : List (Instr L)
  /-- what the calls that have not returned go on with, the last one first -/
  callers : List (List (Instr L))
  /-- what the next reads of ports give -/
  inputs : List (BitVec 8)
  log : List Event

namespace State

/-- `s` after an instruction with the result `v` for `dst`. -/
def put (s : State L) (dst : Reg) (v : BitVec 32) : State L :=
  { s with regs := Function.update s.regs dst v }

/-- `s` with the zero flag of the result `v`. -/
def flag {w : ℕ} (s : State L) (v : BitVec w) : State L := { s with zf := v == 0 }

end State

/-- One step, `none` at the end of the text and where there is no next state: a division that
faults, a read when no more values come, a return to nowhere. -/
def step (p : List (Instr L)) (s : State L) : Option (State L) :=
  match s.text with
  | [] => none
  | i :: is =>
    let next := { s with text := is }
    match i with
    | .label _ => some next
    | .movl src dst => some (next.put dst (src.value s.regs))
    | .movb src dst => some (next.put dst (setLow (s.regs dst) (src.value s.regs)))
    | .subl src dst =>
      let v := s.regs dst - src.value s.regs
      some ((next.put dst v).flag v)
    | .cmpl src dst => some (next.flag (s.regs dst - src.value s.regs))
    | .testb src dst => some (next.flag ((s.regs dst).setWidth 8 &&& src.value s.regs))
    | .shrw count dst =>
      let v := (s.regs dst).setWidth 16 >>> count
      some ((next.put dst (setLow (s.regs dst) v)).flag v)
    | .divl src =>
      let dividend := (s.regs .edx).toNat * 2 ^ 32 + (s.regs .eax).toNat
      let divisor := (s.regs src).toNat
      if divisor = 0 ∨ 2 ^ 32 ≤ dividend / divisor then none
      else some ((next.put .eax (BitVec.ofNat 32 (dividend / divisor))).put .edx
        (BitVec.ofNat 32 (dividend % divisor)))
    | .inb port =>
      match s.inputs with
      | [] => none
      | v :: vs => some { next.put .eax (setLow (s.regs .eax) v) with
          inputs := vs, log := s.log ++ [.input port v] }
    | .outb port => some { next with
        log := s.log ++ [.output port ((s.regs .eax).setWidth 8)] }
    | .jne l => some (if s.zf then next else { s with text := textFrom l p })
    | .call l => some { s with text := textFrom l p, callers := is :: s.callers }
    | .ret =>
      match s.callers with
      | [] => none
      | c :: cs => some { s with text := c, callers := cs }

/-- A call of a routine from outside the program. -/
def start (p : List (Instr L)) (l : L) (regs : Regs) (zf : Bool) (inputs : List (BitVec 8)) :
    State L :=
  { regs := regs, zf := zf, text := textFrom l p, callers := [[]], inputs := inputs, log := [] }

/-- The routine called from outside has returned in the state `t`. -/
def Returns (p : List (Instr L)) (s t : State L) : Prop :=
  t ∈ eval (step p) s ∧ t.text = [] ∧ t.callers = []

variable {p : List (Instr L)} {s s' t : State L}

theorem Returns.iff_of_reaches (hReaches : Reaches (step p) s s') :
    Returns p s t ↔ Returns p s' t := by
  rw [Returns, Returns, reaches_eval hReaches]

theorem returns_self (hText : t.text = []) (hCallers : t.callers = []) : Returns p t t := by
  refine ⟨mem_eval.mpr ⟨Relation.ReflTransGen.refl, ?_⟩, hText, hCallers⟩
  rw [step, hText]

/-- Where the machine stops, a return can only be the state itself. -/
theorem Returns.eq_of_stop (hReturns : Returns p s t) (hStop : step p s = none) : t = s :=
  Part.mem_unique hReturns.1 (mem_eval.mpr ⟨Relation.ReflTransGen.refl, hStop⟩)

/-- Where the machine stops before the end of the text the routine does not return. -/
theorem not_returns (hReaches : Reaches (step p) s s') (hStop : step p s' = none)
    (hText : s'.text ≠ []) : ¬ Returns p s t := by
  intro hReturns
  have hLater := (Returns.iff_of_reaches hReaches).mp hReturns
  obtain rfl := hLater.eq_of_stop hStop
  exact hText hLater.2.1

/-! ## Rules

What an instruction does to the state, in the form in which a run is put together.
-/

variable {regs : Regs} {zf : Bool} {is : List (Instr L)} {callers : List (List (Instr L))}
  {inputs : List (BitVec 8)} {log : List Event}

theorem step_label {l : L} : step p ⟨regs, zf, .label l :: is, callers, inputs, log⟩ =
    some ⟨regs, zf, is, callers, inputs, log⟩ := rfl

theorem step_movl {src : Operand 32} {dst : Reg} :
    step p ⟨regs, zf, .movl src dst :: is, callers, inputs, log⟩ =
      some ⟨Function.update regs dst (src.value regs), zf, is, callers, inputs, log⟩ := rfl

theorem step_movl_reg {src dst : Reg} :
    step p ⟨regs, zf, .movl (.reg src) dst :: is, callers, inputs, log⟩ =
      some ⟨Function.update regs dst (regs src), zf, is, callers, inputs, log⟩ := by
  rw [step_movl, Operand.value, BitVec.setWidth_eq]

theorem step_movb {src : Operand 8} {dst : Reg} :
    step p ⟨regs, zf, .movb src dst :: is, callers, inputs, log⟩ =
      some ⟨Function.update regs dst (setLow (regs dst) (src.value regs)), zf, is, callers, inputs,
        log⟩ := rfl

theorem step_subl {src : Operand 32} {dst : Reg} :
    step p ⟨regs, zf, .subl src dst :: is, callers, inputs, log⟩ =
      some ⟨Function.update regs dst (regs dst - src.value regs), regs dst - src.value regs == 0,
        is, callers, inputs, log⟩ := rfl

theorem step_cmpl {src : Operand 32} {dst : Reg} :
    step p ⟨regs, zf, .cmpl src dst :: is, callers, inputs, log⟩ =
      some ⟨regs, regs dst - src.value regs == 0, is, callers, inputs, log⟩ := rfl

theorem step_testb {src : Operand 8} {dst : Reg} :
    step p ⟨regs, zf, .testb src dst :: is, callers, inputs, log⟩ =
      some ⟨regs, (regs dst).setWidth 8 &&& src.value regs == 0, is, callers, inputs, log⟩ := rfl

theorem step_shrw {count : ℕ} {dst : Reg} :
    step p ⟨regs, zf, .shrw count dst :: is, callers, inputs, log⟩ =
      some ⟨Function.update regs dst (setLow (regs dst) ((regs dst).setWidth 16 >>> count)),
        (regs dst).setWidth 16 >>> count == 0, is, callers, inputs, log⟩ := rfl

/-- A division of 32 bits, with nothing in the upper half of the dividend. -/
theorem step_divl {src : Reg} (hUpper : regs .edx = 0) (hDivisor : regs src ≠ 0) :
    step p ⟨regs, zf, .divl src :: is, callers, inputs, log⟩ =
      some ⟨Function.update (Function.update regs .eax (regs .eax / regs src)) .edx
        (regs .eax % regs src), zf, is, callers, inputs, log⟩ := by
  have hNonzero : (regs src).toNat ≠ 0 := fun hZero => hDivisor (BitVec.eq_of_toNat_eq hZero)
  have hFits : (regs .eax).toNat / (regs src).toNat < 2 ^ 32 :=
    lt_of_le_of_lt (Nat.div_le_self _ _) (regs .eax).isLt
  have hDividend : (regs .edx).toNat * 2 ^ 32 + (regs .eax).toNat = (regs .eax).toNat := by
    rw [hUpper]
    exact Nat.zero_add _
  rw [step]
  simp only [hDividend]
  rw [if_neg (not_or.mpr ⟨hNonzero, Nat.not_le.mpr hFits⟩), BitVec.udiv_def, BitVec.umod_def]
  rfl

theorem step_divl_zero {src : Reg} (hDivisor : regs src = 0) :
    step p ⟨regs, zf, .divl src :: is, callers, inputs, log⟩ = none := by
  rw [step]
  exact if_pos (Or.inl (congrArg BitVec.toNat hDivisor))

theorem step_inb {port v : BitVec 8} :
    step p ⟨regs, zf, .inb port :: is, callers, v :: inputs, log⟩ =
      some ⟨Function.update regs .eax (setLow (regs .eax) v), zf, is, callers, inputs,
        log ++ [.input port v]⟩ := rfl

theorem step_inb_nil {port : BitVec 8} :
    step p ⟨regs, zf, .inb port :: is, callers, [], log⟩ = none := rfl

theorem step_outb {port : BitVec 8} :
    step p ⟨regs, zf, .outb port :: is, callers, inputs, log⟩ =
      some ⟨regs, zf, is, callers, inputs,
        log ++ [.output port ((regs .eax).setWidth 8)]⟩ := rfl

theorem step_jne {l : L} : step p ⟨regs, zf, .jne l :: is, callers, inputs, log⟩ =
    some ⟨regs, zf, if zf then is else textFrom l p, callers, inputs, log⟩ := by
  cases zf with
  | true => rfl
  | false => rfl

theorem step_call {l : L} : step p ⟨regs, zf, .call l :: is, callers, inputs, log⟩ =
    some ⟨regs, zf, textFrom l p, is :: callers, inputs, log⟩ := rfl

theorem step_ret {c : List (Instr L)} :
    step p ⟨regs, zf, .ret :: is, c :: callers, inputs, log⟩ =
      some ⟨regs, zf, c, callers, inputs, log⟩ := rfl

/-! ## Loops -/

/-- A round of a loop that counts down goes on when the register came to zero. -/
theorem reaches_countDown_round {l : L} {r : Reg} {text : List (Instr L)}
    (hText : text = .label l :: .subl (.imm 1) r :: .cmpl (.imm 0) r :: .jne l :: is) :
    Reaches (step p) ⟨regs, zf, text, callers, inputs, log⟩
      ⟨Function.update regs r (regs r - 1), regs r - 1 == 0,
        if regs r - 1 == 0 then is else textFrom l p, callers, inputs, log⟩ := by
  subst hText
  have hCompared : Function.update regs r (regs r - 1) r - 0 = regs r - 1 := by
    rw [Function.update_self]
    exact BitVec.sub_zero _
  refine .head step_label (.head step_subl (.head step_cmpl (.single ?_)))
  rw [Operand.value, Operand.value, hCompared]
  exact step_jne

/-- The loop runs once for each unit of the register, and `2 ^ 32` times from zero. -/
theorem reaches_countDown {l : L} {r : Reg}
    (hLoop : textFrom l p = .label l :: .subl (.imm 1) r :: .cmpl (.imm 0) r :: .jne l :: is) :
    Reaches (step p) ⟨regs, zf, textFrom l p, callers, inputs, log⟩
      ⟨Function.update regs r 0, true, is, callers, inputs, log⟩ := by
  induction hLeft : (regs r - 1).toNat using Nat.strongRecOn generalizing regs zf with
  | ind n ih =>
    have hRound : Reaches (step p) ⟨regs, zf, textFrom l p, callers, inputs, log⟩ _ :=
      reaches_countDown_round hLoop
    by_cases hZero : regs r - 1 = 0
    · rw [hZero] at hRound
      exact hRound
    · rw [beq_false_of_ne hZero] at hRound
      have hFewer : (Function.update regs r (regs r - 1) r - 1).toNat < n := by
        rw [Function.update_self, ← hLeft]
        bv_omega
      have hRest : Reaches (step p)
          ⟨Function.update regs r (regs r - 1), false, textFrom l p, callers, inputs, log⟩ _ :=
        ih _ hFewer rfl
      rw [Function.update_idem] at hRest
      exact hRound.trans hRest

/-- A call of a routine that counts a register down comes back with the register at zero. -/
theorem reaches_call_countDown {entry l : L} {r : Reg} {n : BitVec 32} {rest : List (Instr L)}
    (hEntry : textFrom entry p = .label entry :: .movl (.imm n) r :: textFrom l p)
    (hLoop : textFrom l p =
      .label l :: .subl (.imm 1) r :: .cmpl (.imm 0) r :: .jne l :: .ret :: rest) :
    Reaches (step p) ⟨regs, zf, .call entry :: is, callers, inputs, log⟩
      ⟨Function.update regs r 0, true, is, callers, inputs, log⟩ := by
  have hBody : Reaches (step p) ⟨regs, zf, textFrom entry p, is :: callers, inputs, log⟩
      ⟨Function.update regs r n, zf, textFrom l p, is :: callers, inputs, log⟩ := by
    rw [hEntry]
    exact .head step_label (.single step_movl)
  have hCount : Reaches (step p)
      ⟨Function.update regs r n, zf, textFrom l p, is :: callers, inputs, log⟩ _ :=
    reaches_countDown hLoop
  rw [Function.update_idem] at hCount
  exact .head step_call (hBody.trans (hCount.tail step_ret))

/-! ## Ports -/

/-- A byte goes to a port. -/
theorem reaches_output {port : BitVec 8} {src : Operand 8} :
    Reaches (step p) ⟨regs, zf, .movb src .eax :: .outb port :: is, callers, inputs, log⟩
      ⟨Function.update regs .eax (setLow (regs .eax) (src.value regs)), zf, is, callers, inputs,
        log ++ [.output port (src.value regs)]⟩ := by
  have hByte : (Function.update regs .eax (setLow (regs .eax) (src.value regs)) .eax).setWidth 8 =
      src.value regs := by
    rw [Function.update_self, setWidth_setLow le_rfl (by decide), BitVec.setWidth_eq]
  refine .head step_movb (.single ?_)
  rw [Option.mem_def, step_outb, hByte]

/-- What a loop that waits for the bits `mask` of a port to clear does with the next value. -/
theorem reaches_poll {l : L} {port mask v : BitVec 8} :
    Reaches (step p)
      ⟨regs, zf, .inb port :: .testb (.imm mask) .eax :: .jne l :: is, callers, v :: inputs, log⟩
      ⟨Function.update regs .eax (setLow (regs .eax) v), v &&& mask == 0,
        if v &&& mask == 0 then is else textFrom l p, callers, inputs,
        log ++ [.input port v]⟩ := by
  refine .head step_inb (.head step_testb (.single ?_))
  rw [Operand.value, Function.update_self, setWidth_setLow le_rfl (by decide), BitVec.setWidth_eq]
  exact step_jne

theorem reaches_poll_busy {l : L} {port mask v : BitVec 8} (hBusy : v &&& mask ≠ 0) :
    Reaches (step p)
      ⟨regs, zf, .inb port :: .testb (.imm mask) .eax :: .jne l :: is, callers, v :: inputs, log⟩
      ⟨Function.update regs .eax (setLow (regs .eax) v), false, textFrom l p, callers, inputs,
        log ++ [.input port v]⟩ := by
  have hPoll : Reaches (step p) ⟨regs, zf,
    .inb port :: .testb (.imm mask) .eax :: .jne l :: is, callers, v :: inputs, log⟩ _ :=
    reaches_poll
  rwa [beq_false_of_ne hBusy] at hPoll

theorem reaches_poll_ready {l : L} {port mask v : BitVec 8} (hReady : v &&& mask = 0) :
    Reaches (step p)
      ⟨regs, zf, .inb port :: .testb (.imm mask) .eax :: .jne l :: is, callers, v :: inputs, log⟩
      ⟨Function.update regs .eax (setLow (regs .eax) v), true, is, callers, inputs,
        log ++ [.input port v]⟩ := by
  have hPoll : Reaches (step p) ⟨regs, zf,
    .inb port :: .testb (.imm mask) .eax :: .jne l :: is, callers, v :: inputs, log⟩ _ :=
    reaches_poll
  rwa [hReady] at hPoll

end DebugCode.Lib.X86
