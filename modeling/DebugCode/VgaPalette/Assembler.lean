import DebugCode.Lib.Flow
import DebugCode.Lib.X86
import DebugCode.VgaPalette.Dac

/-!
# vga-palette.S

The routines set the first 64 entries of the palette to one colour; `flash` calls five of them
with a delay behind each one, and has no `ret`.

* `iterate_round`: the loops write the entries of a colour, one to each round.
* `setreg_paints`, `setblack_paints`, ...: what the routines write.
* `routine_sets_palette`: each routine returns, with the first 64 entries in its colour and the
  others as they were.
* `flash_falls_off`: `flash` shows its five colours in turn and then runs over the end of the
  text, with the palette white.
-/

namespace DebugCode.VgaPalette

open Lib Lib.Flow StateTransition

/-! ## The machine -/

inductive Reg
  | eax | ebx | ecx | edx
  deriving DecidableEq

/-- The instructions of the text; `movb`, `addb` and `cmpb` are about the low byte of a register,
`movw` about its low 16 bits. -/
inductive Op
  | movb (v : BitVec 8) (dst : Reg)
  | movbReg (src dst : Reg)
  | movw (v : BitVec 16) (dst : Reg)
  | movl (v : BitVec 32) (dst : Reg)
  | addb (v : BitVec 8) (dst : Reg)
  | cmpb (v : BitVec 8) (dst : Reg)
  | subl (v : BitVec 32) (dst : Reg)
  | cmpl (v : BitVec 32) (dst : Reg)
  /-- `outb %al, %dx` -/
  | outb

structure Data where
  regs : Reg → BitVec 32
  zf : Bool
  log : List Write

namespace Data

/-- The low byte of a register. -/
def low (d : Data) (r : Reg) : BitVec 8 := (d.regs r).setWidth 8

/-- The low 16 bits of a register. -/
def word (d : Data) (r : Reg) : BitVec 16 := (d.regs r).setWidth 16

def put {w : ℕ} (d : Data) (dst : Reg) (v : BitVec w) : Data :=
  { d with regs := Function.update d.regs dst (X86.setLow (d.regs dst) v) }

/-- The zero flag of a result. -/
def flag {w : ℕ} (d : Data) (v : BitVec w) : Data := { d with zf := v == 0 }

def emit (d : Data) (w : Write) : Data := { d with log := d.log ++ [w] }

end Data

def exec : Op → Data → Data
  | .movb v dst, d => d.put dst v
  | .movbReg src dst, d => d.put dst (d.low src)
  | .movw v dst, d => d.put dst v
  | .movl v dst, d => d.put dst v
  | .addb v dst, d => (d.put dst (d.low dst + v)).flag (d.low dst + v)
  | .cmpb v dst, d => d.flag (d.low dst - v)
  | .subl v dst, d => (d.put dst (d.regs dst - v)).flag (d.regs dst - v)
  | .cmpl v dst, d => d.flag (d.regs dst - v)
  | .outb, d => d.emit ⟨d.word .edx, d.low .eax⟩

def cpu : Semantics Op Data := ⟨exec, Data.zf⟩

namespace Data

variable (d : Data) (r s : Reg) {w : ℕ} (v : BitVec w) (out : Write)

@[simp]
theorem low_put_byte (v : BitVec 8) : (d.put r v).low r = v := by
  have hPart : (d.put r v).regs r = X86.setLow (d.regs r) v := Function.update_self _ _ _
  rw [low, hPart, X86.setWidth_setLow (Nat.le_refl 8) (by omega), BitVec.setWidth_eq]

@[simp]
theorem word_put_word (v : BitVec 16) : (d.put r v).word r = v := by
  have hPart : (d.put r v).regs r = X86.setLow (d.regs r) v := Function.update_self _ _ _
  rw [word, hPart, X86.setWidth_setLow (Nat.le_refl 16) (by omega), BitVec.setWidth_eq]

@[simp]
theorem regs_put_long (v : BitVec 32) : (d.put r v).regs r = v := by
  have hPart : (d.put r v).regs r = X86.setLow (d.regs r) v := Function.update_self _ _ _
  rw [hPart, ← BitVec.setWidth_eq (X86.setLow (d.regs r) v),
    X86.setWidth_setLow (Nat.le_refl 32) (Nat.le_refl 32), BitVec.setWidth_eq]

variable {r s}

theorem regs_put_of_ne (hOther : s ≠ r) : (d.put r v).regs s = d.regs s :=
  Function.update_of_ne hOther _ _

@[simp]
theorem low_put_of_ne (hOther : s ≠ r) : (d.put r v).low s = d.low s :=
  congrArg _ (regs_put_of_ne d v hOther)

@[simp]
theorem word_put_of_ne (hOther : s ≠ r) : (d.put r v).word s = d.word s :=
  congrArg _ (regs_put_of_ne d v hOther)

@[simp] theorem log_put : (d.put r v).log = d.log := rfl

@[simp] theorem regs_flag : (d.flag v).regs = d.regs := rfl

@[simp] theorem low_flag : (d.flag v).low = d.low := rfl

@[simp] theorem word_flag : (d.flag v).word = d.word := rfl

@[simp] theorem log_flag : (d.flag v).log = d.log := rfl

@[simp] theorem zf_flag : (d.flag v).zf = (v == 0) := rfl

@[simp] theorem low_emit : (d.emit out).low = d.low := rfl

@[simp] theorem word_emit : (d.emit out).word = d.word := rfl

@[simp] theorem log_emit : (d.emit out).log = d.log ++ [out] := rfl

end Data

/-! ## The text -/

inductive Label
  | setred | setred1 | setgreen | setgreen1 | setblue | setblue1 | setreg | setreg1
  | delay | loop1s | setblack | setwhite | flash
  deriving DecidableEq

/-- The text of `vga-palette.S`. -/
def vgaPalette : List (Line Label Op) :=
  [.label .setred,
    .op (.movb 0x00 .ebx),
  .label .setred1,
    .op (.movw 0x3c8 .edx),
    .op (.movbReg .ebx .eax),
    .op .outb,
    .op (.movw 0x3c9 .edx),
    .op (.movb 63 .eax),
    .op .outb,
    .op (.movb 00 .eax),
    .op .outb,
    .op .outb,
    .op (.addb 1 .ebx),
    .op (.cmpb 0x40 .ebx),
    .jne .setred1,
    .ret,
  .label .setgreen,
    .op (.movb 0x00 .ebx),
  .label .setgreen1,
    .op (.movw 0x3c8 .edx),
    .op (.movbReg .ebx .eax),
    .op .outb,
    .op (.movw 0x3c9 .edx),
    .op (.movb 00 .eax),
    .op .outb,
    .op (.movb 63 .eax),
    .op .outb,
    .op (.movb 00 .eax),
    .op .outb,
    .op (.addb 1 .ebx),
    .op (.cmpb 0x40 .ebx),
    .jne .setgreen1,
    .ret,
  .label .setblue,
    .op (.movb 0x00 .ebx),
  .label .setblue1,
    .op (.movw 0x3c8 .edx),
    .op (.movbReg .ebx .eax),
    .op .outb,
    .op (.movw 0x3c9 .edx),
    .op (.movb 00 .eax),
    .op .outb,
    .op .outb,
    .op (.movb 63 .eax),
    .op .outb,
    .op (.addb 1 .ebx),
    .op (.cmpb 0x40 .ebx),
    .jne .setblue1,
    .ret,
  .label .setreg,
    .op (.movbReg .eax .ecx),
    .op (.movb 0x00 .ebx),
  .label .setreg1,
    .op (.movw 0x3c8 .edx),
    .op (.movbReg .ebx .eax),
    .op .outb,
    .op (.movw 0x3c9 .edx),
    .op (.movbReg .ecx .eax),
    .op .outb,
    .op .outb,
    .op .outb,
    .op (.addb 1 .ebx),
    .op (.cmpb 0x40 .ebx),
    .jne .setreg1,
    .ret,
  .label .delay,
    .op (.movl 0x1e1e1e1e .eax),
  .label .loop1s,
    .op (.subl 1 .eax),
    .op (.cmpl 0 .eax),
    .jne .loop1s,
    .ret,
  .label .setblack,
    .op (.movb 0 .eax),
    .jmp .setreg,
  .label .setwhite,
    .op (.movb 63 .eax),
    .jmp .setreg,
  .label .flash,
    .call .setblack,
    .call .delay,
    .call .setred,
    .call .delay,
    .call .setgreen,
    .call .delay,
    .call .setblue,
    .call .delay,
    .call .setwhite,
    .call .delay]

/-! ## One entry to each round -/

/-- The instructions that write one entry, around those for its three components. -/
def roundOps (components : List Op) : List Op :=
  [.movw 0x3c8 .edx, .movbReg .ebx .eax, .outb, .movw 0x3c9 .edx] ++ components ++
    [.addb 1 .ebx, .cmpb 0x40 .ebx]

/-- With the data port in `%dx`, the instructions write the bytes `c` of a colour, which may
depend on `%cl`. -/
def Emits (components : List Op) (c : BitVec 8 → Bytes) : Prop :=
  ∀ d : Data, d.word .edx = dataPort →
    (run cpu components d).log = d.log ++ (c (d.low .ecx)).writes ∧
      (run cpu components d).low .ebx = d.low .ebx ∧
      (run cpu components d).low .ecx = d.low .ecx

/-- What a round does. -/
structure Round (c : BitVec 8 → Bytes) (d d' : Data) : Prop where
  log : d'.log = d.log ++ entry (d.low .ebx) (c (d.low .ecx))
  next : d'.low .ebx = d.low .ebx + 1
  kept : d'.low .ecx = d.low .ecx
  zf : d'.zf = (d.low .ebx + 1 - 0x40 == 0)

theorem run_append (is js : List Op) (d : Data) :
    run cpu (is ++ js) d = run cpu js (run cpu is d) := List.foldl_append

theorem round_of_emits {components : List Op} {c : BitVec 8 → Bytes} (hEmits : Emits components c)
    (d : Data) : Round c d (run cpu (roundOps components) d) := by
  rw [roundOps, run_append, run_append]
  generalize hSelected : run cpu [.movw 0x3c8 .edx, .movbReg .ebx .eax, .outb, .movw 0x3c9 .edx] d =
    d'
  have hPort : d'.word .edx = dataPort := by
    rw [← hSelected]
    exact Data.word_put_word _ _ _
  have hIndex : d'.log = d.log ++ [⟨indexPort, d.low .ebx⟩] := by
    rw [← hSelected]
    simp [run, cpu, exec, indexPort]
  have hLow : d'.low .ebx = d.low .ebx ∧ d'.low .ecx = d.low .ecx := by
    rw [← hSelected]
    simp [run, cpu, exec]
  obtain ⟨hLog, hCount, hKept⟩ := hEmits d' hPort
  generalize run cpu components d' = d'' at hLog hCount hKept ⊢
  refine ⟨?_, ?_, ?_, ?_⟩
  · show ((exec (.addb 1 .ebx) d'').log) = _
    rw [exec, Data.log_flag, Data.log_put, hLog, hIndex, hLow.2, List.append_assoc]
    rfl
  · simp [run, cpu, exec, hCount, hLow.1]
  · simp [run, cpu, exec, hKept, hLow.2]
  · simp [run, cpu, exec, hCount, hLow.1]

/-! ## The loops -/

section

variable {body : List Op} {c : BitVec 8 → Bytes} (hRound : ∀ d, Round c d (run cpu body d))

include hRound in
/-- The rounds write one entry after the other, from the first one on. -/
theorem iterate_round {d : Data} (hStart : d.low .ebx = 0) (k : ℕ) :
    ((run cpu body)^[k] d).log = d.log ++ painted k (c (d.low .ecx)) ∧
      ((run cpu body)^[k] d).low .ebx = BitVec.ofNat 8 k ∧
      ((run cpu body)^[k] d).low .ecx = d.low .ecx := by
  induction k with
  | zero => exact ⟨(List.append_nil _).symm, hStart, rfl⟩
  | succ k ih =>
    obtain ⟨hLog, hCount, hKept⟩ := ih
    have hNext := hRound ((run cpu body)^[k] d)
    rw [Function.iterate_succ_apply']
    refine ⟨?_, ?_, hNext.kept.trans hKept⟩
    · rw [hNext.log, hLog, hCount, hKept, painted_succ, List.append_assoc]
    · rw [hNext.next, hCount]
      exact (BitVec.ofNat_add k 1).symm

include hRound in
/-- The loop ends behind the entry `0x3f`. -/
theorem reaches_loop {l : Label} {is : List (Line Label Op)} {cs : List (List (Line Label Op))}
    {d : Data} (hStart : d.low .ebx = 0)
    (hLoop : textFrom l vgaPalette = .label l :: (ops body ++ .jne l :: is)) :
    Reaches (step cpu vgaPalette) ⟨d, textFrom l vgaPalette, cs⟩
      ⟨(run cpu body)^[64] d, is, cs⟩ := by
  have hFlag : ∀ k, ((run cpu body)^[k + 1] d).zf = (BitVec.ofNat 8 (k + 1) - 0x40 == 0) := by
    intro k
    rw [Function.iterate_succ_apply', (hRound _).zf, (iterate_round hRound hStart k).2.1,
      BitVec.ofNat_add]
    rfl
  refine reaches_doWhile (n := 63) hLoop ?_ ((hFlag 63).trans rfl)
  intro k hk
  refine (hFlag k).trans (beq_false_of_ne ?_)
  bv_omega

end

/-- The routine at `l` returns and writes a colour for the first 64 entries, which may depend on
`%al`. -/
def Paints (l : Label) (c : BitVec 8 → Bytes) : Prop :=
  ∃ f : Data → Data, Runs cpu vgaPalette l f ∧
    ∀ d, (f d).log = d.log ++ painted 64 (c (d.low .eax))

/-- A routine that sets `%bl` to zero and falls into the loop at `m`. -/
theorem paints_of_loop {l : Label} {c c' : BitVec 8 → Bytes} {is : List (Line Label Op)}
    (m : Label) (before components : List Op)
    (hText : textFrom l vgaPalette = .label l :: (ops before ++ textFrom m vgaPalette))
    (hLoop : textFrom m vgaPalette =
      .label m :: (ops (roundOps components) ++ .jne m :: .ret :: is))
    (hEmits : Emits components c)
    (hBefore : ∀ d, (run cpu before d).log = d.log ∧ (run cpu before d).low .ebx = 0 ∧
      c ((run cpu before d).low .ecx) = c' (d.low .eax)) : Paints l c' := by
  refine ⟨fun d => (run cpu (roundOps components))^[64] (run cpu before d), ?_, ?_⟩
  · apply Runs.of_reaches
    intro d cs
    rw [hText]
    exact reaches_label.trans ((reaches_ops before).trans
      (reaches_loop (round_of_emits hEmits) (hBefore d).2.1 hLoop))
  · intro d
    rw [(iterate_round (round_of_emits hEmits) (hBefore d).2.1 64).1, (hBefore d).1,
      (hBefore d).2.2]

theorem setred_paints : Paints .setred fun _ => ⟨63, 0, 0⟩ := by
  refine paints_of_loop .setred1 [.movb 0x00 .ebx]
    [.movb 63 .eax, .outb, .movb 00 .eax, .outb, .outb] rfl rfl (c := fun _ => ⟨63, 0, 0⟩) ?_ ?_
  · intro d hPort
    simp [run, cpu, exec, hPort, Bytes.writes]
  · intro d
    simp [run, cpu, exec]

theorem setgreen_paints : Paints .setgreen fun _ => ⟨0, 63, 0⟩ := by
  refine paints_of_loop .setgreen1 [.movb 0x00 .ebx]
    [.movb 00 .eax, .outb, .movb 63 .eax, .outb, .movb 00 .eax, .outb] rfl rfl
    (c := fun _ => ⟨0, 63, 0⟩) ?_ ?_
  · intro d hPort
    simp [run, cpu, exec, hPort, Bytes.writes]
  · intro d
    simp [run, cpu, exec]

theorem setblue_paints : Paints .setblue fun _ => ⟨0, 0, 63⟩ := by
  refine paints_of_loop .setblue1 [.movb 0x00 .ebx]
    [.movb 00 .eax, .outb, .outb, .movb 63 .eax, .outb] rfl rfl
    (c := fun _ => ⟨0, 0, 63⟩) ?_ ?_
  · intro d hPort
    simp [run, cpu, exec, hPort, Bytes.writes]
  · intro d
    simp [run, cpu, exec]

/-- `setreg` keeps the byte in `%cl`. -/
theorem setreg_paints : Paints .setreg fun v => ⟨v, v, v⟩ := by
  refine paints_of_loop .setreg1 [.movbReg .eax .ecx, .movb 0x00 .ebx]
    [.movbReg .ecx .eax, .outb, .outb, .outb] rfl rfl (c := fun v => ⟨v, v, v⟩) ?_ ?_
  · intro d hPort
    simp [run, cpu, exec, hPort, Bytes.writes]
  · intro d
    simp [run, cpu, exec]

/-- A routine that puts a byte into `%al` and jumps to `setreg`. -/
theorem paints_of_setreg {l : Label} {is : List (Line Label Op)} (v : BitVec 8)
    (hText : textFrom l vgaPalette = .label l :: (ops [.movb v .eax] ++ .jmp .setreg :: is)) :
    Paints l fun _ => ⟨v, v, v⟩ := by
  obtain ⟨f, hRuns, hLog⟩ := setreg_paints
  refine ⟨_, Runs.of_jmp hText hRuns, ?_⟩
  intro d
  rw [hLog]
  simp [run, cpu, exec]

theorem setblack_paints : Paints .setblack fun _ => ⟨0, 0, 0⟩ := paints_of_setreg 0 rfl

theorem setwhite_paints : Paints .setwhite fun _ => ⟨63, 63, 63⟩ := paints_of_setreg 63 rfl

/-- The instructions of the loop of `delay`. -/
def countOps : List Op := [.subl 1 .eax, .cmpl 0 .eax]

theorem iterate_countOps (d : Data) (k : ℕ) :
    ((run cpu countOps)^[k] d).log = d.log ∧
      ((run cpu countOps)^[k] d).regs .eax = d.regs .eax - BitVec.ofNat 32 k := by
  induction k with
  | zero => exact ⟨rfl, (BitVec.sub_zero _).symm⟩
  | succ k ih =>
    rw [Function.iterate_succ_apply']
    generalize (run cpu countOps)^[k] d = d' at ih ⊢
    refine ⟨ih.1, ?_⟩
    have hRound : (run cpu countOps d').regs .eax = d'.regs .eax - 1 :=
      Data.regs_put_long d' .eax (d'.regs .eax - 1)
    rw [hRound, ih.2, BitVec.ofNat_add, ← BitVec.sub_sub]
    rfl

theorem zf_countOps (d : Data) :
    (run cpu countOps d).zf = ((run cpu countOps d).regs .eax == 0) :=
  congrArg (· == 0) (BitVec.sub_zero _)

/-- A loop that counts `%eax` down makes as many rounds as it holds. -/
theorem reaches_countOps {l : Label} {is : List (Line Label Op)}
    {cs : List (List (Line Label Op))} {d : Data}
    (hLoop : textFrom l vgaPalette = .label l :: (ops countOps ++ .jne l :: is))
    (hNonzero : d.regs .eax ≠ 0) :
    Reaches (step cpu vgaPalette) ⟨d, textFrom l vgaPalette, cs⟩
      ⟨(run cpu countOps)^[(d.regs .eax).toNat] d, is, cs⟩ := by
  have hPositive : (d.regs .eax).toNat ≠ 0 := fun hZero => hNonzero (BitVec.eq_of_toNat_eq hZero)
  obtain ⟨n, hCount⟩ := Nat.exists_eq_succ_of_ne_zero hPositive
  have hFlag : ∀ k, ((run cpu countOps)^[k + 1] d).zf =
      (d.regs .eax - BitVec.ofNat 32 (k + 1) == 0) := by
    intro k
    rw [← (iterate_countOps d (k + 1)).2, Function.iterate_succ_apply']
    exact zf_countOps _
  rw [hCount]
  refine reaches_doWhile hLoop ?_ ?_
  · intro k hk
    refine (hFlag k).trans (beq_false_of_ne ?_)
    bv_omega
  · refine (hFlag n).trans ?_
    rw [beq_iff_eq]
    bv_omega

/-- `delay` counts down and writes nothing. -/
theorem delay_quiet : ∃ f : Data → Data, Runs cpu vgaPalette .delay f ∧ ∀ d, (f d).log = d.log := by
  have hText : textFrom .delay vgaPalette =
      .label .delay :: (ops [.movl 0x1e1e1e1e .eax] ++ textFrom .loop1s vgaPalette) := rfl
  refine ⟨fun d => (run cpu countOps)^[((run cpu [.movl 0x1e1e1e1e .eax] d).regs .eax).toNat]
    (run cpu [.movl 0x1e1e1e1e .eax] d), ?_, ?_⟩
  · apply Runs.of_reaches
    intro d cs
    have hCount : (run cpu [.movl 0x1e1e1e1e .eax] d).regs .eax = 0x1e1e1e1e :=
      Data.regs_put_long d .eax 0x1e1e1e1e
    rw [hText]
    refine reaches_label.trans ((reaches_ops _).trans (reaches_countOps rfl ?_))
    rw [hCount]
    decide
  · intro d
    rw [(iterate_countOps _ _).1]
    rfl

/-! ## What is seen -/

inductive Routine
  | setred | setgreen | setblue | setreg | setblack | setwhite

namespace Routine

def label : Routine → Label
  | setred => .setred
  | setgreen => .setgreen
  | setblue => .setblue
  | setreg => .setreg
  | setblack => .setblack
  | setwhite => .setwhite

/-- The colour of a routine, with the byte in `%al`. -/
def colour (al : BitVec 8) : Routine → Bytes
  | setred => ⟨63, 0, 0⟩
  | setgreen => ⟨0, 63, 0⟩
  | setblue => ⟨0, 0, 63⟩
  | setreg => ⟨al, al, al⟩
  | setblack => ⟨0, 0, 0⟩
  | setwhite => ⟨63, 63, 63⟩

theorem paints (r : Routine) : Paints r.label fun al => r.colour al := by
  cases r with
  | setred => exact setred_paints
  | setgreen => exact setgreen_paints
  | setblue => exact setblue_paints
  | setreg => exact setreg_paints
  | setblack => exact setblack_paints
  | setwhite => exact setwhite_paints

end Routine

/-- The machine before a call of a routine, with nothing written yet. -/
def call (l : Label) (regs : Reg → BitVec 32) (zf : Bool) (callers : List (List (Line Label Op))) :
    State Label Op Data := ⟨⟨regs, zf, []⟩, textFrom l vgaPalette, callers⟩

/-- Each routine returns, with its colour in the first 64 entries and the others as they were,
whatever was in the registers and in the palette. -/
theorem routine_sets_palette (r : Routine) (regs : Reg → BitVec 32) (zf : Bool) (dac : Dac) :
    ∃ t, Returns cpu vgaPalette (call r.label regs zf [[]]) t ∧
      ∀ i, (dac.after t.data.log).palette i =
        if i.toNat < 64 then (r.colour ((regs .eax).setWidth 8)).colour else dac.palette i := by
  obtain ⟨f, hRuns, hLog⟩ := r.paints
  refine ⟨_, hRuns.returns _, ?_⟩
  intro i
  show (dac.after (f ⟨regs, zf, []⟩).log).palette i = _
  rw [hLog, List.nil_append, palette_painted (by omega)]
  rfl

/-- The colours that `flash` shows, one after the other. -/
def flashed : List Bytes :=
  [⟨0, 0, 0⟩, ⟨63, 0, 0⟩, ⟨0, 63, 0⟩, ⟨0, 0, 63⟩, ⟨63, 63, 63⟩]

/-- A call of a routine that paints, and of `delay` behind it. -/
theorem reaches_painted {l : Label} {c : Bytes} (hPaints : Paints l fun _ => c) (d : Data)
    (is : List (Line Label Op)) (cs : List (List (Line Label Op))) :
    ∃ d', Reaches (step cpu vgaPalette) ⟨d, .call l :: .call .delay :: is, cs⟩ ⟨d', is, cs⟩ ∧
      d'.log = d.log ++ painted 64 c := by
  obtain ⟨f, hRuns, hLog⟩ := hPaints
  obtain ⟨g, hDelay, hQuiet⟩ := delay_quiet
  refine ⟨g (f d), (reaches_call hRuns).trans (reaches_call hDelay), ?_⟩
  rw [hQuiet, hLog]

theorem reaches_flash (regs : Reg → BitVec 32) (zf : Bool)
    (callers : List (List (Line Label Op))) :
    ∃ d, Reaches (step cpu vgaPalette) (call .flash regs zf callers) ⟨d, [], callers⟩ ∧
      d.log = flashed.flatMap (painted 64) := by
  have hText : textFrom .flash vgaPalette = .label .flash ::
      [.call .setblack, .call .delay, .call .setred, .call .delay, .call .setgreen, .call .delay,
        .call .setblue, .call .delay, .call .setwhite, .call .delay] := rfl
  obtain ⟨d₁, hBlack, hLog₁⟩ := reaches_painted setblack_paints ⟨regs, zf, []⟩ _ callers
  obtain ⟨d₂, hRed, hLog₂⟩ := reaches_painted setred_paints d₁ _ callers
  obtain ⟨d₃, hGreen, hLog₃⟩ := reaches_painted setgreen_paints d₂ _ callers
  obtain ⟨d₄, hBlue, hLog₄⟩ := reaches_painted setblue_paints d₃ _ callers
  obtain ⟨d₅, hWhite, hLog₅⟩ := reaches_painted setwhite_paints d₄ [] callers
  refine ⟨d₅, ?_, ?_⟩
  · rw [call, hText]
    exact reaches_label.trans (hBlack.trans (hRed.trans (hGreen.trans (hBlue.trans hWhite))))
  · rw [hLog₅, hLog₄, hLog₃, hLog₂, hLog₁]
    simp [flashed]

theorem palette_flashed (dac : Dac) (i : BitVec 8) :
    (dac.after (flashed.flatMap (painted 64))).palette i =
      if i.toNat < 64 then ⟨63, 63, 63⟩ else dac.palette i := by
  have hLast : flashed.flatMap (painted 64) =
      (flashed.take 4).flatMap (painted 64) ++ painted 64 ⟨63, 63, 63⟩ := by
    simp [flashed]
  have hBefore : ∀ (cs : List Bytes), ¬ i.toNat < 64 →
      (dac.after (cs.flatMap (painted 64))).palette i = dac.palette i := by
    intro cs hAbove
    induction cs using List.reverseRecOn with
    | nil => rfl
    | append_singleton cs c ih =>
      rw [List.flatMap_append, List.flatMap_singleton, Dac.after_append,
        palette_painted (by omega), if_neg hAbove, ih]
  rw [hLast, Dac.after_append, palette_painted (by omega)]
  by_cases hBelow : i.toNat < 64
  · rw [if_pos hBelow, if_pos hBelow]
    rfl
  · rw [if_neg hBelow, if_neg hBelow, hBefore _ hBelow]

/-- `flash` shows its colours one after the other and runs over the end of the text, with the
palette white: what is linked behind comes next, with all the callers of `flash` still waiting. -/
theorem flash_falls_off (regs : Reg → BitVec 32) (zf : Bool)
    (callers : List (List (Line Label Op))) (dac : Dac) :
    ∃ d, Reaches (step cpu vgaPalette) (call .flash regs zf callers) ⟨d, [], callers⟩ ∧
      d.log = flashed.flatMap (painted 64) ∧
        ∀ i, (dac.after d.log).palette i =
          if i.toNat < 64 then ⟨63, 63, 63⟩ else dac.palette i := by
  obtain ⟨d, hReaches, hLog⟩ := reaches_flash regs zf callers
  refine ⟨d, hReaches, hLog, ?_⟩
  intro i
  rw [hLog, palette_flashed]

end DebugCode.VgaPalette
