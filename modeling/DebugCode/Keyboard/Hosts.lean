import DebugCode.Keyboard.Controller

/-!
# keycode.c and led.c at the keyboard controller

`keycode.c` pushes scan codes into the controller, a press and a release for each code of a
zero-terminated array; `led.c` sends commands to the keyboard. What the controller makes of
their bytes, in every order of steps:

* `main_types`: the scan codes that come out are the presses and releases of the array, from the
  first one on, in order and once each, and no byte of `keycode.c` goes to the keyboard.
* `main_finishes`: when both go on, all of them come out.
* `drive_ledProgram`: the program of `led.c` is its loop as it was read off the status values.
* `rounds_reach_keyboard`: the keyboard gets the commands of `led.c`, from the first one on.
-/

namespace DebugCode.Keyboard

open Lib LedFlash

/-! ## keycode.c -/

def pushKeycode (code : BitVec 8) : List Stmt :=
  [.wait, .send ⟨i8042StatusReg, 0xd2⟩, .wait, .send ⟨i8042DataReg, code⟩]

def hello : List (BitVec 8) :=
  [0x23, 0x12, 0x26, 0x26, 0x18, 0x39, 0x11, 0x18, 0x13, 0x20, 0]

/-- The loop of `main`, with the array from `ptr` on. -/
def main : List (BitVec 8) → List Stmt
  | [] => []
  | c :: ptr => if c = 0 then [] else pushKeycode c ++ pushKeycode (c ||| 0x80) ++ main ptr

/-- A press and a release for each code. -/
def keystrokes (codes : List (BitVec 8)) : List (BitVec 8) := codes.flatMap fun c => [c, c ||| 0x80]

example : keystrokes (hello.take 2) = [0x23, 0xa3, 0x12, 0x92] := by decide

/-- The bytes that push some scan codes. -/
def pushes (codes : List (BitVec 8)) : List Write :=
  codes.flatMap fun c => [⟨i8042StatusReg, 0xd2⟩, ⟨i8042DataReg, c⟩]

theorem polite_pushKeycode (code : BitVec 8) : Mailbox.Polite (pushKeycode code) :=
  .send (.send .nil)

theorem messages_pushKeycode (code : BitVec 8) :
    Mailbox.messages (pushKeycode code) = pushes [code] := rfl

section

variable {codes rest : List (BitVec 8)}

theorem polite_main (ptr : List (BitVec 8)) : Mailbox.Polite (main ptr) := by
  induction ptr with
  | nil => exact .nil
  | cons c ptr ih =>
    rw [main]
    split
    · exact .nil
    · exact ((polite_pushKeycode c).append (polite_pushKeycode _)).append ih

theorem messages_main (hCodes : ∀ c ∈ codes, c ≠ 0) :
    Mailbox.messages (main (codes ++ 0 :: rest)) = pushes (keystrokes codes) := by
  induction codes with
  | nil => rfl
  | cons c codes ih =>
    rw [List.cons_append, main, if_neg (hCodes c List.mem_cons_self), Mailbox.messages_append,
      Mailbox.messages_append, messages_pushKeycode, messages_pushKeycode,
      ih fun d hd => hCodes d (List.mem_cons_of_mem _ hd)]
    rfl

end

/-! ## What the controller makes of it -/

theorem take_command (c : Controller) : c.take ⟨i8042StatusReg, 0xd2⟩ = { c with echo := true } :=
  rfl

theorem data_ne_status : i8042DataReg ≠ i8042StatusReg := by decide

theorem take_echoed {c : Controller} (hEcho : c.echo = true) (code : BitVec 8) :
    c.take ⟨i8042DataReg, code⟩ =
      { c with echo := false, scancodes := c.scancodes ++ [code] } := by
  rw [Controller.take, if_neg data_ne_status, if_pos hEcho]

/-- A command byte: not behind `0xd2` it goes to the keyboard. -/
theorem take_keyboard {c : Controller} (hEcho : c.echo = false) (v : BitVec 8) :
    c.take ⟨i8042DataReg, v⟩ = { c with keyboard := c.keyboard ++ [v] } := by
  rw [Controller.take, if_neg data_ne_status, hEcho]
  rfl

/-- The first bytes of some pushes are pushes, perhaps with the command of one more. -/
theorem prefix_pushes {codes : List (BitVec 8)} {taken : List Write}
    (hPrefix : taken <+: pushes codes) :
    ∃ done, done <+: codes ∧
      (taken = pushes done ∨ taken = pushes done ++ [⟨i8042StatusReg, 0xd2⟩]) := by
  induction codes generalizing taken with
  | nil => exact ⟨[], List.nil_prefix, Or.inl (List.prefix_nil.mp hPrefix)⟩
  | cons c codes ih =>
    rcases taken with _ | ⟨w, _ | ⟨v, taken⟩⟩
    · exact ⟨[], List.nil_prefix, Or.inl rfl⟩
    · obtain ⟨rfl, -⟩ := List.cons_prefix_cons.mp hPrefix
      exact ⟨[], List.nil_prefix, Or.inr rfl⟩
    · obtain ⟨rfl, hTail⟩ := List.cons_prefix_cons.mp hPrefix
      obtain ⟨rfl, hRest⟩ : v = _ ∧ taken <+: pushes codes := List.cons_prefix_cons.mp hTail
      obtain ⟨done, hDone, hTaken⟩ := ih hRest
      refine ⟨c :: done, List.cons_prefix_cons.mpr ⟨rfl, hDone⟩, ?_⟩
      rcases hTaken with rfl | rfl
      · exact Or.inl rfl
      · exact Or.inr rfl

/-- Pushed codes come out as scan codes. -/
theorem foldl_take_pushes (codes : List (BitVec 8)) {c : Controller} (hEcho : c.echo = false) :
    (pushes codes).foldl Controller.take c =
      { c with scancodes := c.scancodes ++ codes } := by
  induction codes generalizing c with
  | nil =>
    rw [List.append_nil]
    rfl
  | cons code codes ih =>
    show (pushes codes).foldl Controller.take
      ((c.take ⟨i8042StatusReg, 0xd2⟩).take ⟨i8042DataReg, code⟩) = _
    rw [take_command, take_echoed rfl, ih rfl]
    simp [hEcho]

/-- The bytes of data, not behind `0xd2`, go to the keyboard. -/
theorem foldl_take_data (values : List (BitVec 8)) {c : Controller} (hEcho : c.echo = false) :
    (values.map (⟨i8042DataReg, ·⟩)).foldl Controller.take c =
      { c with keyboard := c.keyboard ++ values } := by
  induction values generalizing c with
  | nil =>
    rw [List.append_nil]
    rfl
  | cons v values ih =>
    have hRest := @ih { c with keyboard := c.keyboard ++ [v] } hEcho
    rw [List.map_cons, List.foldl_cons, take_keyboard hEcho, hRest]
    simp

/-! ## keycode.c in every order of steps -/

/-- The scan codes that came out are the first keystrokes, nothing went to the keyboard, and in
the end all keystrokes have come out. -/
structure Typed (codes : List (BitVec 8)) (s : System) : Prop where
  lost : s.lost = []
  keyboard : s.controller.keyboard = []
  typed : s.controller.scancodes <+: keystrokes codes
  complete : s.program = [] → s.input = none → s.controller.scancodes = keystrokes codes

section

variable {codes : List (BitVec 8)} (rest : List (BitVec 8))

/-- At the end all keystrokes have come out. -/
theorem scancodes_of_through (hCodes : ∀ c ∈ codes, c ≠ 0) {s : System}
    (hSound : Sound (main (codes ++ 0 :: rest)) s) (hThrough : s.program = [])
    (hEmpty : s.input = none) : s.controller.scancodes = keystrokes codes := by
  obtain ⟨taken, -, hController, hAll⟩ := hSound.taken
  rw [messages_main hCodes] at hAll
  rw [hController, hAll hThrough hEmpty, foldl_take_pushes _ rfl]
  rfl

theorem main_types (hCodes : ∀ c ∈ codes, c ≠ 0) (acts : List Act) :
    Typed codes (steps step (start (main (codes ++ 0 :: rest))) acts) := by
  have hSound := sound (polite_main (codes ++ 0 :: rest)) acts
  obtain ⟨taken, hPrefix, hController, -⟩ := hSound.taken
  rw [messages_main hCodes] at hPrefix
  have hTyped : ∃ done, done <+: keystrokes codes ∧ (taken = pushes done ∨
      taken = pushes done ++ [⟨i8042StatusReg, 0xd2⟩]) := prefix_pushes hPrefix
  obtain ⟨done, hDone, hTaken⟩ := hTyped
  have hOut : (taken.foldl Controller.take .idle).keyboard = [] ∧
      (taken.foldl Controller.take .idle).scancodes = done := by
    rcases hTaken with rfl | rfl
    · rw [foldl_take_pushes done rfl]
      exact ⟨rfl, rfl⟩
    · rw [List.foldl_append, foldl_take_pushes done rfl]
      exact ⟨rfl, rfl⟩
  refine ⟨hSound.lost, hController ▸ hOut.1, ?_, scancodes_of_through rest hCodes hSound⟩
  rw [hController, hOut.2]
  exact hDone

/-- The array of the program, and a first byte that the controller takes at once. -/
theorem main_types_hello : Typed (hello.take 10) (steps step (start (main hello))
    [.program 0, .program 0x1c, .controller, .program 0, .program 0]) :=
  main_types [] (by decide) _

theorem main_finishes (hCodes : ∀ c ∈ codes, c ≠ 0) {schedule : ℕ → Act}
    (hFair : FairSchedule schedule) :
    ∃ n, ∀ k, n ≤ k → (stateAt step (start (main (codes ++ 0 :: rest))) schedule k).program = [] ∧
      (stateAt step (start (main (codes ++ 0 :: rest))) schedule k).controller.scancodes =
        keystrokes codes := by
  obtain ⟨n, hThrough⟩ := exists_through (main (codes ++ 0 :: rest)) hFair
  refine ⟨n, fun k hLater => ⟨(hThrough k hLater).1, ?_⟩⟩
  have hSound := sound (polite_main (codes ++ 0 :: rest)) ((List.range k).map schedule)
  rw [← stateAt_eq_steps] at hSound
  exact scancodes_of_through rest hCodes hSound (hThrough k hLater).1 (hThrough k hLater).2

/-- Program and controller take turns. -/
def alternating (n : ℕ) : Act := if n % 2 = 0 then .program 0 else .controller

theorem alternating_fair : FairSchedule alternating := by
  intro party n
  cases party with
  | host =>
    refine ⟨2 * n, by omega, ?_⟩
    rw [alternating, if_pos (Nat.mul_mod_right 2 n)]
    rfl
  | device =>
    refine ⟨2 * n + 1, by omega, ?_⟩
    rw [alternating, if_neg (by omega)]
    rfl

theorem main_finishes_hello :
    ∃ n, ∀ k, n ≤ k → (stateAt step (start (main hello)) alternating k).program = [] ∧
      (stateAt step (start (main hello)) alternating k).controller.scancodes =
        keystrokes (hello.take 10) := by
  have hHello : hello = hello.take 10 ++ 0 :: [] := by decide
  rw [hHello]
  exact main_finishes [] (by decide) alternating_fair

end

/-! ## led.c -/

/-- The first rounds of the loop of `led.c`. -/
def ledProgram : ℕ → BitVec 32 → List Stmt
  | 0, _ => []
  | n + 1, val =>
    let val := val ^^^ 0x5
    .wait :: .send ⟨i8042DataReg, 0xed⟩ :: .wait :: .send ⟨i8042DataReg, val.setWidth 8⟩ ::
      ledProgram n val

/-- A program on given status values. -/
def drive : List Stmt → List (BitVec 8) → Option (List X86.Event)
  | [], _ => some []
  | .send w :: rest, ss => (drive rest ss).map (.output w.port w.value :: ·)
  | .wait :: rest, ss =>
    (waitReady ss).bind fun (log, later) => (drive rest later).map (log ++ ·)

theorem drive_wait (p : List Stmt) (ss : List (BitVec 8)) : drive (.wait :: p) ss =
    (waitReady ss).bind fun r => (drive p r.2).map (r.1 ++ ·) := rfl

theorem drive_send (w : Write) (p : List Stmt) (ss : List (BitVec 8)) :
    drive (.send w :: p) ss = (drive p ss).map (.output w.port w.value :: ·) := by
  cases ss <;> rfl

theorem drive_ledProgram (n : ℕ) (val : BitVec 32) (ss : List (BitVec 8)) :
    drive (ledProgram n val) ss = rounds n val ss := by
  induction n generalizing val ss with
  | zero => rfl
  | succ n ih =>
    rw [rounds, LedFlash.round, Option.bind_assoc, ledProgram, drive_wait]
    refine congrArg _ (funext fun first => ?_)
    rw [drive_send, drive_wait, Option.bind_assoc, Option.map_map, Option.map_bind]
    refine congrArg _ (funext fun second => ?_)
    show Option.map _ (Option.map _ (drive _ second.2)) = Option.map _ (rounds n _ second.2)
    rw [drive_send, ih, Option.map_map, Option.map_map]
    congr 1
    funext later
    simp only [Function.comp_apply, List.append_assoc, List.cons_append, List.nil_append]

theorem polite_ledProgram (n : ℕ) (val : BitVec 32) : Mailbox.Polite (ledProgram n val) := by
  induction n generalizing val with
  | zero => exact .nil
  | succ n ih => exact .send (.send (ih _))

theorem messages_ledProgram (n : ℕ) (val : BitVec 32) :
    Mailbox.messages (ledProgram n val) = (roundCommands n val).map (⟨i8042DataReg, ·⟩) := by
  induction n generalizing val with
  | zero => rfl
  | succ n ih =>
    rw [ledProgram, roundCommands, Mailbox.messages_wait, Mailbox.messages_send,
      Mailbox.messages_wait, Mailbox.messages_send, ih]
    rfl

/-- The keyboard gets the commands of the rounds of `led.c`, from the first one on, and nothing
comes out as if it had been typed. -/
structure Commanded (commands : List (BitVec 8)) (s : System) : Prop where
  lost : s.lost = []
  scancodes : s.controller.scancodes = []
  received : s.controller.keyboard <+: commands
  complete : s.program = [] → s.input = none → s.controller.keyboard = commands

theorem rounds_reach_keyboard (n : ℕ) (val : BitVec 32) (acts : List Act) :
    Commanded (roundCommands n val) (steps step (start (ledProgram n val)) acts) := by
  have hSound := sound (polite_ledProgram n val) acts
  obtain ⟨taken, hPrefix, hController, hAll⟩ := hSound.taken
  rw [messages_ledProgram] at hPrefix hAll
  have hTaken : taken =
      ((roundCommands n val).take taken.length).map (⟨i8042DataReg, ·⟩) := by
    rw [List.map_take]
    exact List.prefix_iff_eq_take.mp hPrefix
  have hOut := foldl_take_data ((roundCommands n val).take taken.length) (c := .idle) rfl
  rw [← hTaken, ← hController] at hOut
  refine ⟨hSound.lost, ?_, ?_, ?_⟩
  · rw [hOut]
    rfl
  · rw [hOut]
    exact List.take_prefix _ _
  · intro hThrough hEmpty
    rw [hController, hAll hThrough hEmpty, foldl_take_data _ rfl]
    rfl

end DebugCode.Keyboard
