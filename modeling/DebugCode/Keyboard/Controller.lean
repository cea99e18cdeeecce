import DebugCode.Lib.Mailbox
import DebugCode.LedFlash.Flashers

/-!
# A program at the keyboard controller

The input buffer of the 8042 holds one byte, written to the data or to the command port, until
the controller takes it; bit 1 of the status says that it is full. Behind the command `0xd2` the
next data byte is put into the output buffer as if it had been typed, any other data byte goes
on to the keyboard. The program polls the status and writes bytes while the controller works,
and nothing is known about the order of their steps or about the other bits of the status.

* `refines_step`, `refines_steps`: program and controller are a host and a device with a buffer
  for one message.
* `System.sound`: a program that waits before each byte loses none.
* `exists_through`: the program comes to its end when both go on.
-/

namespace DebugCode.Keyboard

open Lib LedFlash

/-- A byte written to a port of the controller. -/
structure Write where
  port : BitVec 8
  value : BitVec 8
  deriving DecidableEq

/-- `.wait` is `while (inb(I8042_STATUS_REG) & 0x2) ;`, `.send` is `outb`. -/
abbrev Stmt := Mailbox.Stmt Write

structure Controller where
  /-- the last byte was the command `0xd2` -/
  echo : Bool
  /-- what was put into the output buffer as if it had been typed -/
  scancodes : List (BitVec 8)
  /-- what went on to the keyboard -/
  keyboard : List (BitVec 8)

/-- The controller takes a byte out of the input buffer. -/
def Controller.take (c : Controller) (w : Write) : Controller :=
  if w.port = i8042StatusReg then { c with echo := decide (w.value = 0xd2) }
  else if c.echo then { c with echo := false, scancodes := c.scancodes ++ [w.value] }
  else { c with keyboard := c.keyboard ++ [w.value] }

structure System where
  /-- the statements ahead -/
  program : List Stmt
  input : Option Write
  controller : Controller
  /-- the bytes that were overwritten in the input buffer -/
  lost : List Write

/-- A read of the status, with any other bits. -/
def status (input : Option Write) (other : BitVec 8) : BitVec 8 :=
  other &&& ~~~0x2 ||| if input.isSome then 0x2 else 0

inductive Act
  /-- the program goes on; the other bits are those it reads in the status -/
  | program (other : BitVec 8)
  | controller

def step (s : System) : Act → System
  | .program other =>
    match s.program with
    | [] => s
    | .wait :: rest => if busy (status s.input other) then s else { s with program := rest }
    | .send w :: rest =>
      { s with program := rest, input := some w, lost := s.lost ++ s.input.toList }
  | .controller =>
    match s.input with
    | none => s
    | some w => { s with input := none, controller := s.controller.take w }

def Controller.idle : Controller := ⟨false, [], []⟩

def start (program : List Stmt) : System := ⟨program, none, .idle, []⟩

theorem busy_status_iff {input : Option Write} {other : BitVec 8} :
    busy (status input other) ↔ input.isSome := by
  have hClear : ∀ b : BitVec 8, b &&& ~~~0x2 &&& 0x2 = 0 := by
    intro b
    rw [BitVec.and_assoc]
    exact BitVec.and_zero
  cases input with
  | none =>
    have hStatus : status none other &&& 0x2 = 0 := by
      rw [status, Option.isSome_none, if_neg Bool.false_ne_true]
      exact (congrArg (· &&& 0x2) BitVec.or_zero).trans (hClear other)
    constructor
    · intro hBusy
      exact absurd hStatus hBusy
    · intro hFull
      cases hFull
  | some w =>
    have hStatus : status (some w) other &&& 0x2 = 0x2 := by
      rw [status, Option.isSome_some, if_pos rfl, BitVec.and_or_distrib_right, hClear]
      rfl
    refine iff_of_true ?_ rfl
    rw [busy, hStatus]
    decide

/-! ## Program and controller as host and device -/

def Act.party : Act → Mailbox.Party
  | program _ => .host
  | controller => .device

/-- The controller is in the state that the bytes taken left it in. -/
structure Refines (s : System) (m : Mailbox.State Write) : Prop where
  program : s.program = m.program
  input : s.input = m.slot
  lost : s.lost = m.lost
  controller : s.controller = m.taken.foldl Controller.take .idle

theorem refines_start (program : List Stmt) : Refines (start program) (Mailbox.start program) :=
  ⟨rfl, rfl, rfl, rfl⟩

theorem refines_step (s : System) (m : Mailbox.State Write) (a : Act) (h : Refines s m) :
    Refines (step s a) (Mailbox.step m a.party) := by
  obtain ⟨program, input, controller, lost⟩ := s
  obtain ⟨program', slot, taken, lost'⟩ := m
  obtain ⟨hProgram, hInput, hLost, hController⟩ := h
  obtain rfl : program = program' := hProgram
  obtain rfl : input = slot := hInput
  obtain rfl : lost = lost' := hLost
  cases a with
  | controller =>
    cases input with
    | none => exact ⟨rfl, rfl, rfl, hController⟩
    | some w =>
      refine ⟨rfl, rfl, rfl, ?_⟩
      show controller.take w = (taken ++ [w]).foldl Controller.take .idle
      rw [List.foldl_append, ← hController]
      rfl
  | program other =>
    rcases program with _ | ⟨_ | w, rest⟩
    · exact ⟨rfl, rfl, rfl, hController⟩
    · show Refines (if busy (status input other) then _ else _) (if input.isSome then _ else _)
      by_cases hFull : input.isSome
      · rw [if_pos (busy_status_iff.mpr hFull), if_pos hFull]
        exact ⟨rfl, rfl, rfl, hController⟩
      · rw [if_neg (mt busy_status_iff.mp hFull), if_neg hFull]
        exact ⟨rfl, rfl, rfl, hController⟩
    · exact ⟨rfl, rfl, rfl, hController⟩

theorem refines_steps (program : List Stmt) (acts : List Act) :
    Refines (steps step (start program) acts)
      (steps Mailbox.step (Mailbox.start program) (acts.map Act.party)) :=
  steps_related refines_step (refines_start program)

/-- What holds of a system in which no byte was lost: the controller has taken the first bytes
of the program, and all of them when the program is through and the buffer is empty. -/
structure Sound (program : List Stmt) (s : System) : Prop where
  lost : s.lost = []
  taken : ∃ taken, taken <+: Mailbox.messages program ∧
    s.controller = taken.foldl Controller.take .idle ∧
    (s.program = [] → s.input = none → taken = Mailbox.messages program)

/-- A program that waits before each byte loses none, in any order of steps. -/
theorem sound {program : List Stmt} (hPolite : Mailbox.Polite program) (acts : List Act) :
    Sound program (steps step (start program) acts) := by
  have hRefines := refines_steps program acts
  have hSound := Mailbox.Sound.steps hPolite (acts.map Act.party)
  refine ⟨hRefines.lost.trans hSound.lost, _, hSound.taken_prefix, hRefines.controller, ?_⟩
  intro hThrough hEmpty
  exact hSound.taken_eq (hRefines.program.symm.trans hThrough) (hRefines.input.symm.trans hEmpty)

/-- Both go on again and again. -/
def FairSchedule (schedule : ℕ → Act) : Prop := Fair Act.party schedule

/-- In a fair schedule the program comes to its end and the controller takes the last byte. -/
theorem exists_through (program : List Stmt) {schedule : ℕ → Act}
    (hFair : FairSchedule schedule) :
    ∃ n, ∀ k, n ≤ k → (stateAt step (start program) schedule k).program = [] ∧
      (stateAt step (start program) schedule k).input = none := by
  have hParties : Fair id (Act.party ∘ schedule) := hFair
  obtain ⟨n, hThrough⟩ := Mailbox.exists_through (Mailbox.start program) hParties
  refine ⟨n, fun k hLater => ?_⟩
  obtain ⟨d, rfl⟩ := Nat.exists_eq_add_of_le hLater
  have hRefines := refines_steps program ((List.range (n + d)).map schedule)
  rw [List.map_map, ← stateAt_eq_steps, ← stateAt_eq_steps] at hRefines
  exact ⟨hRefines.program.trans (hThrough d).1, hRefines.input.trans (hThrough d).2⟩

end DebugCode.Keyboard
