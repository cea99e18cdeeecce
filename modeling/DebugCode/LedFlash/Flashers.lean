import DebugCode.Lib.Handshake
import DebugCode.Lib.X86

/-!
# The two keyboard LED flashers

`led.c` switches the LEDs of the keyboard in a loop, one command to each round; `flash_led` of
`led_flash.S` switches them on and off once. Both read the status of the keyboard controller
before each byte that they write to it.

* `rounds_eq`: the loop of `led.c` is a host that waits, with the commands of its rounds.
* `returns_iff`: `flash_led` is a host that waits at three of its four wait points, and starts
  again when the controller is busy at the third one.
* `flashLed_speaks_iff`: it writes what two rounds of `led.c` write when the first status read
  at the third wait point is not busy, and in no other case.
* `flashLed_polled`: every byte is written right behind a status that was not busy.
-/

namespace DebugCode.LedFlash

open Lib Lib.X86 StateTransition

def i8042DataReg : BitVec 8 := 0x60

def i8042StatusReg : BitVec 8 := 0x64

/-- The input buffer of the controller is full. -/
abbrev busy (status : BitVec 8) : Prop := status &&& 0x2 ≠ 0

/-- What a host does, on the ports. -/
def event : Act (BitVec 8) (BitVec 8) → Event
  | .poll s => .input i8042StatusReg s
  | .send c => .output i8042DataReg c

/-- The bytes written to the controller are the commands. -/
theorem written_map_event (acts : List (Act (BitVec 8) (BitVec 8))) :
    written [i8042DataReg] (acts.map event) = (sent acts).map (i8042DataReg, ·) := by
  induction acts with
  | nil => rfl
  | cons a acts ih =>
    cases a with
    | poll s => exact ih
    | send c => exact congrArg ((i8042DataReg, c) :: ·) ih

/-! ## led.c -/

/-- `while (inb(I8042_STATUS_REG) & 0x2) ;`, with the status values not yet read. -/
def waitReady : List (BitVec 8) → Option (List Event × List (BitVec 8))
  | [] => none
  | s :: ss =>
    if busy s then (waitReady ss).map fun (log, rest) => (.input i8042StatusReg s :: log, rest)
    else some ([.input i8042StatusReg s], ss)

/-- A round of the loop of `main`, with the new `val`. -/
def round (val : BitVec 32) (status : List (BitVec 8)) :
    Option (BitVec 32 × List Event × List (BitVec 8)) :=
  let val := val ^^^ 0x5
  (waitReady status).bind fun (first, status) =>
    (waitReady status).bind fun (second, status) =>
      some (val, first ++ .output i8042DataReg 0xed :: second ++
        [.output i8042DataReg (val.setWidth 8)], status)

/-- The first rounds of the loop. -/
def rounds : ℕ → BitVec 32 → List (BitVec 8) → Option (List Event)
  | 0, _, _ => some []
  | n + 1, val, status =>
    (round val status).bind fun (val, log, status) => (rounds n val status).map (log ++ ·)

/-- The commands of the first rounds. -/
def roundCommands : ℕ → BitVec 32 → List (BitVec 8)
  | 0, _ => []
  | n + 1, val => 0xed :: (val ^^^ 0x5).setWidth 8 :: roundCommands n (val ^^^ 0x5)

/-- A host that waits reads the status as the inner loops do. -/
theorem converse_eq_waitReady (c : BitVec 8) (cs ss : List (BitVec 8)) :
    (converse busy id (c :: cs) ss).map (List.map event) =
      (waitReady ss).bind fun r =>
        ((converse busy id cs r.2).map (List.map event)).map
          (r.1 ++ .output i8042DataReg c :: ·) := by
  induction ss with
  | nil => rfl
  | cons s ss ih =>
    by_cases hBusy : busy s
    · calc (converse busy id (c :: cs) (s :: ss)).map (List.map event)
          = ((converse busy id (c :: cs) ss).map (List.map event)).map (event (.poll s) :: ·) := by
            rw [converse_busy hBusy, id, Option.map_map, Option.map_map]
            rfl
        _ = _ := by
            rw [ih, waitReady, if_pos hBusy, Option.map_bind, Option.bind_map]
            exact congrArg _ (funext fun _ => Option.map_map _ _ _)
    · rw [converse_ready hBusy, waitReady, if_neg hBusy, Option.bind_some, Option.map_map,
        Option.map_map]
      rfl

/-- The loop of `led.c` is a host that waits. -/
theorem rounds_eq (n : ℕ) (val : BitVec 32) (status : List (BitVec 8)) :
    rounds n val status =
      (converse busy id (roundCommands n val) status).map (List.map event) := by
  induction n generalizing val status with
  | zero =>
    rw [rounds, roundCommands, converse_nil]
    rfl
  | succ n ih =>
    rw [rounds, roundCommands, converse_eq_waitReady, round, Option.bind_assoc]
    refine congrArg _ (funext fun first => ?_)
    rw [converse_eq_waitReady, Option.bind_assoc, Option.map_bind]
    refine congrArg _ (funext fun second => ?_)
    show Option.map _ (rounds n (val ^^^ 0x5) second.2) = Option.map _ (Option.map _ _)
    rw [ih, Option.map_map _ (second.1 ++ _ :: ·)]
    congr 1
    funext later
    simp only [Function.comp_apply, List.append_assoc, List.cons_append, List.nil_append]

/-! ## led_flash.S -/

inductive Label
  | wait | wait1 | delay | delay1 | flashLed | flashLed1 | flashLed2
  deriving DecidableEq

/-- The text of `led_flash.S`. -/
def ledFlash : List (Instr Label) :=
  [.label .wait,
    .movl (.imm 0x1000) .eax,
  .label .wait1,
    .subl (.imm 1) .eax,
    .cmpl (.imm 0) .eax,
    .jne .wait1,
    .ret,
  .label .delay,
    .movl (.imm 0x07878787) .eax,
  .label .delay1,
    .subl (.imm 1) .eax,
    .cmpl (.imm 0) .eax,
    .jne .delay1,
    .ret,
  .label .flashLed,
    .inb i8042StatusReg,
    .testb (.imm 0x02) .eax,
    .jne .flashLed,
    .movb (.imm 0xed) .eax,
    .outb i8042DataReg,
    .call .wait,
  .label .flashLed1,
    .inb i8042StatusReg,
    .testb (.imm 0x02) .eax,
    .jne .flashLed1,
    .call .wait,
    .movb (.imm 0x05) .eax,
    .outb i8042DataReg,
    .call .delay,
    .inb i8042StatusReg,
    .testb (.imm 0x02) .eax,
    .jne .flashLed,
    .movb (.imm 0xed) .eax,
    .outb i8042DataReg,
    .call .wait,
  .label .flashLed2,
    .inb i8042StatusReg,
    .testb (.imm 0x02) .eax,
    .jne .flashLed2,
    .call .wait,
    .movb (.imm 0x00) .eax,
    .outb i8042DataReg,
    .call .delay,
    .call .delay,
    .ret]

/-- A call of `wait` comes back. -/
theorem reaches_call_wait {regs : Regs} {zf : Bool} {is : List (Instr Label)}
    {callers : List (List (Instr Label))} {inputs : List (BitVec 8)} {log : List Event} :
    Reaches (step ledFlash) ⟨regs, zf, .call .wait :: is, callers, inputs, log⟩
      ⟨Function.update regs .eax 0, true, is, callers, inputs, log⟩ :=
  reaches_call_countDown (l := .wait1) rfl rfl

/-- A call of `delay` comes back. -/
theorem reaches_call_delay {regs : Regs} {zf : Bool} {is : List (Instr Label)}
    {callers : List (List (Instr Label))} {inputs : List (BitVec 8)} {log : List Event} :
    Reaches (step ledFlash) ⟨regs, zf, .call .delay :: is, callers, inputs, log⟩
      ⟨Function.update regs .eax 0, true, is, callers, inputs, log⟩ :=
  reaches_call_countDown (l := .delay1) rfl rfl

/-- The places where `flash_led` waits for the controller, and the end. -/
inductive Point
  | first | second | third | fourth | done
  deriving DecidableEq

namespace Point

/-- The text ahead at a wait point. The third one has no label. -/
def text : Point → List (Instr Label)
  | first => textFrom .flashLed ledFlash
  | second => textFrom .flashLed1 ledFlash
  | third => (textFrom .flashLed1 ledFlash).drop 8
  | fourth => textFrom .flashLed2 ledFlash
  | done => []

def callers : Point → List (List (Instr Label))
  | done => []
  | _ => [[]]

/-- The bytes that `flash_led` still writes when the controller is not busy again. -/
def left : Point → List (BitVec 8)
  | first => [0xed, 0x05, 0xed, 0x00]
  | second => [0x05, 0xed, 0x00]
  | third => [0xed, 0x00]
  | fourth => [0x00]
  | done => []

end Point

/-- The bytes that are left when the controller is busy: at the third wait point `flash_led` goes
back to the first one. -/
def retry (left : List (BitVec 8)) : List (BitVec 8) :=
  if left = Point.third.left then Point.first.left else left

/-- What `flash_led` does at the wait point `P`: it goes on at `onBusy`, or writes `c` and goes on
at `onReady`. -/
structure Waits (P : Point) (c : BitVec 8) (onBusy onReady : Point) : Prop where
  of_busy : ∀ {s : BitVec 8} (_ : busy s) (regs : Regs) (zf : Bool) (ss : List (BitVec 8))
    (log : List Event), ∃ regs' zf',
    Reaches (step ledFlash) ⟨regs, zf, P.text, P.callers, s :: ss, log⟩
      ⟨regs', zf', onBusy.text, onBusy.callers, ss, log ++ [event (.poll s)]⟩
  of_ready : ∀ {s : BitVec 8} (_ : ¬ busy s) (regs : Regs) (zf : Bool)
    (ss : List (BitVec 8)) (log : List Event), ∃ regs' zf',
    Reaches (step ledFlash) ⟨regs, zf, P.text, P.callers, s :: ss, log⟩
      ⟨regs', zf', onReady.text, onReady.callers, ss,
        log ++ [event (.poll s)] ++ [event (.send c)]⟩
  of_silent : ∀ (regs : Regs) (zf : Bool) (log : List Event), ∃ s,
    Reaches (step ledFlash) ⟨regs, zf, P.text, P.callers, [], log⟩ s ∧
      step ledFlash s = none ∧ s.text ≠ []

theorem waits_first : Waits .first 0xed .first .second where
  of_busy hBusy _ _ _ _ := ⟨_, _, .head step_label (reaches_poll_busy hBusy)⟩
  of_ready hReady _ _ _ _ := ⟨_, _, .head step_label ((reaches_poll_ready (not_not.mp hReady)).trans
    (reaches_output.trans reaches_call_wait))⟩
  of_silent _ _ _ := ⟨_, .single step_label, step_inb_nil, List.cons_ne_nil _ _⟩

theorem waits_second : Waits .second 0x05 .second .third where
  of_busy hBusy _ _ _ _ := ⟨_, _, .head step_label (reaches_poll_busy hBusy)⟩
  of_ready hReady _ _ _ _ := ⟨_, _, .head step_label ((reaches_poll_ready (not_not.mp hReady)).trans
    (reaches_call_wait.trans (reaches_output.trans reaches_call_delay)))⟩
  of_silent _ _ _ := ⟨_, .single step_label, step_inb_nil, List.cons_ne_nil _ _⟩

/-- At the third wait point a busy controller sends `flash_led` back to the first one. -/
theorem waits_third : Waits .third 0xed .first .fourth where
  of_busy hBusy _ _ _ _ := ⟨_, _, reaches_poll_busy hBusy⟩
  of_ready hReady _ _ _ _ := ⟨_, _, (reaches_poll_ready (not_not.mp hReady)).trans
    (reaches_output.trans reaches_call_wait)⟩
  of_silent _ _ _ := ⟨_, .refl, step_inb_nil, List.cons_ne_nil _ _⟩

theorem waits_fourth : Waits .fourth 0x00 .fourth .done where
  of_busy hBusy _ _ _ _ := ⟨_, _, .head step_label (reaches_poll_busy hBusy)⟩
  of_ready hReady _ _ _ _ := ⟨_, _, .head step_label ((reaches_poll_ready (not_not.mp hReady)).trans
    (reaches_call_wait.trans (reaches_output.trans (reaches_call_delay.trans
      (reaches_call_delay.tail step_ret)))))⟩
  of_silent _ _ _ := ⟨_, .single step_label, step_inb_nil, List.cons_ne_nil _ _⟩

/-- Every wait point before the end is one of the four. -/
theorem exists_waits {P : Point} (hMore : P ≠ .done) :
    ∃ c onBusy onReady, P.left = c :: onReady.left ∧ retry P.left = onBusy.left ∧
      Waits P c onBusy onReady := by
  cases P with
  | first => exact ⟨_, _, _, rfl, rfl, waits_first⟩
  | second => exact ⟨_, _, _, rfl, rfl, waits_second⟩
  | third => exact ⟨_, _, _, rfl, rfl, waits_third⟩
  | fourth => exact ⟨_, _, _, rfl, rfl, waits_fourth⟩
  | done => exact absurd rfl hMore

/-- At the end `flash_led` has returned. -/
theorem returns_done_iff {regs : Regs} {zf : Bool} {status : List (BitVec 8)}
    {log result : List Event} :
    (∃ t, Returns ledFlash ⟨regs, zf, Point.done.text, Point.done.callers, status, log⟩ t ∧
      t.log = result) ↔
      ∃ acts, converse busy retry Point.done.left status = some acts ∧
        log ++ acts.map event = result := by
  rw [Point.left, converse_nil]
  constructor
  · rintro ⟨t, hReturns, rfl⟩
    refine ⟨[], rfl, ?_⟩
    rw [hReturns.eq_of_stop rfl, List.map_nil, List.append_nil]
  · rintro ⟨acts, hActs, rfl⟩
    cases hActs
    exact ⟨_, returns_self rfl rfl, (List.append_nil log).symm⟩

/-- From a wait point on `flash_led` returns when it is through with the bytes that are left. -/
theorem returns_from_iff (P : Point) (regs : Regs) (zf : Bool) (status : List (BitVec 8))
    (log result : List Event) :
    (∃ t, Returns ledFlash ⟨regs, zf, P.text, P.callers, status, log⟩ t ∧ t.log = result) ↔
      ∃ acts, converse busy retry P.left status = some acts ∧ log ++ acts.map event = result := by
  induction status generalizing P regs zf log with
  | nil =>
    by_cases hDone : P = .done
    · subst hDone
      exact returns_done_iff
    · obtain ⟨c, onBusy, onReady, hLeft, -, hWaits⟩ := exists_waits hDone
      obtain ⟨s, hReaches, hStop, hText⟩ := hWaits.of_silent regs zf log
      rw [hLeft]
      constructor
      · intro ⟨t, hReturns, _⟩
        exact absurd hReturns (not_returns hReaches hStop hText)
      · intro ⟨acts, hActs, _⟩
        cases hActs
  | cons s ss ih =>
    by_cases hDone : P = .done
    · subst hDone
      exact returns_done_iff
    · obtain ⟨c, onBusy, onReady, hLeft, hRetry, hWaits⟩ := exists_waits hDone
      by_cases hBusy : busy s
      · obtain ⟨regs', zf', hReaches⟩ := hWaits.of_busy hBusy regs zf ss log
        rw [hLeft, converse_busy hBusy, ← hLeft, hRetry]
        simp only [Returns.iff_of_reaches hReaches, ih, Option.map_eq_some_iff,
          exists_exists_and_eq_and, List.map_cons, List.append_assoc, List.singleton_append]
      · obtain ⟨regs', zf', hReaches⟩ := hWaits.of_ready hBusy regs zf ss log
        rw [hLeft, converse_ready hBusy]
        simp only [Returns.iff_of_reaches hReaches, ih, Option.map_eq_some_iff,
          exists_exists_and_eq_and, List.map_cons, List.append_assoc, List.cons_append,
          List.nil_append]

/-- `flash_led` returns when it is through with its four bytes, and has then done on the ports
what a host with `retry` does. -/
theorem returns_iff (regs : Regs) (zf : Bool) (status : List (BitVec 8)) (result : List Event) :
    (∃ t, Returns ledFlash (start ledFlash .flashLed regs zf status) t ∧ t.log = result) ↔
      ∃ acts, converse busy retry Point.first.left status = some acts ∧
        acts.map event = result :=
  returns_from_iff .first regs zf status [] result

/-- The written bytes of a call that returns: the first two, and what comes from the third wait
point. -/
theorem exists_third {status : List (BitVec 8)} {acts : List (Act (BitVec 8) (BitVec 8))}
    (hActs : converse busy retry Point.first.left status = some acts) :
    ∃ rest, converse busy retry Point.third.left (behindReady busy (behindReady busy status)) =
      some rest ∧ sent acts = 0xed :: 0x05 :: sent rest := by
  obtain ⟨later, hLater, hSent⟩ := sent_of_wait rfl hActs
  obtain ⟨rest, hRest, hSent'⟩ := sent_of_wait rfl hLater
  exact ⟨rest, hRest, by rw [hSent, hSent']⟩

/-- The bytes are the right ones when the controller is not busy at the third wait point. -/
theorem sent_eq_iff {status : List (BitVec 8)} {acts : List (Act (BitVec 8) (BitVec 8))}
    (hActs : converse busy retry Point.first.left status = some acts) :
    sent acts = Point.first.left ↔
      ∃ s, (behindReady busy (behindReady busy status)).head? = some s ∧ ¬ busy s := by
  obtain ⟨rest, hRest, hSent⟩ := exists_third hActs
  rw [hSent]
  cases hThird : behindReady busy (behindReady busy status) with
  | nil =>
    rw [hThird] at hRest
    cases hRest
  | cons s ss =>
    rw [hThird] at hRest
    simp only [List.head?_cons, Option.some.injEq, exists_eq_left']
    by_cases hBusy : busy s
    · -- The same two bytes again, in the place of the last two.
      rw [Point.left, converse_busy hBusy, Option.map_eq_some_iff] at hRest
      obtain ⟨again, hAgain, rfl⟩ := hRest
      obtain ⟨last, -, hLast⟩ := exists_third hAgain
      rw [sent_cons_poll, hLast]
      refine iff_of_false (fun hSame => ?_) (not_not.mpr hBusy)
      have hLastTwo := (List.cons.inj (List.cons.inj hSame).2).2
      exact absurd (List.cons.inj (List.cons.inj hLastTwo).2).1 (by decide)
    · rw [Point.left, converse_ready hBusy, Option.map_eq_some_iff] at hRest
      obtain ⟨last, hLast, rfl⟩ := hRest
      obtain ⟨final, hFinal, hSent'⟩ := sent_of_wait rfl hLast
      rw [converse_nil] at hFinal
      cases hFinal
      rw [sent_cons_poll, sent_cons_send, hSent']
      exact iff_of_true rfl hBusy

/-- Every byte is written right behind a status that was not busy. -/
theorem flashLed_polled {acts : List (Act (BitVec 8) (BitVec 8))} {status : List (BitVec 8)}
    (hActs : converse busy retry Point.first.left status = some acts) {before after : List Event}
    {v : BitVec 8} (hSplit : acts.map event = before ++ .output i8042DataReg v :: after) :
    ∃ earlier s, before = earlier ++ [.input i8042StatusReg s] ∧ s &&& 0x2 = 0 := by
  obtain ⟨before, rest, rfl, rfl, hRest⟩ := List.map_eq_append_iff.mp hSplit
  obtain ⟨a, after, rfl, hWrite, rfl⟩ := List.map_eq_cons_iff.mp hRest
  cases a with
  | poll s => cases hWrite
  | send c =>
    obtain ⟨earlier, s, rfl, hReady⟩ := ready_before hActs
    exact ⟨earlier.map event, s, List.map_append, not_not.mp hReady⟩

/-- What the protocol asks of a call of `flash_led`. -/
structure SpeaksProtocol (log : List Event) : Prop where
  /-- one command that switches the LEDs on and one that switches them off -/
  written_eq : written [i8042DataReg] log =
    [0xed, 0x05, 0xed, 0x00].map (i8042DataReg, ·)
  /-- two rounds of `led.c` write the same -/
  written_eq_rounds : ∀ status result, rounds 2 0 status = some result →
    written [i8042DataReg] log = written [i8042DataReg] result
  /-- behind a status that was not busy, with no other write in between -/
  polled : ∀ before v after, log = before ++ .output i8042DataReg v :: after →
    ∃ earlier s quiet, before = earlier ++ .input i8042StatusReg s :: quiet ∧ s &&& 0x2 = 0 ∧
      ∀ port w, .output port w ∉ quiet

/-- The bytes that rounds of `led.c` write. -/
theorem written_rounds {n : ℕ} {val : BitVec 32} {status : List (BitVec 8)} {result : List Event}
    (hRounds : rounds n val status = some result) :
    written [i8042DataReg] result = (roundCommands n val).map (i8042DataReg, ·) := by
  rw [rounds_eq, Option.map_eq_some_iff] at hRounds
  obtain ⟨acts, hActs, rfl⟩ := hRounds
  rw [written_map_event, sent_of_waits hActs]

/-- What a call of `flash_led` must have been for the protocol. -/
theorem speaksProtocol_iff {acts : List (Act (BitVec 8) (BitVec 8))} {status : List (BitVec 8)}
    (hActs : converse busy retry Point.first.left status = some acts) :
    SpeaksProtocol (acts.map event) ↔ sent acts = Point.first.left := by
  have hInjective : Function.Injective fun v : BitVec 8 => (i8042DataReg, v) :=
    Prod.mk_right_injective _
  constructor
  · intro hSpeaks
    have hWritten := hSpeaks.written_eq
    rw [written_map_event] at hWritten
    exact hInjective.list_map hWritten
  · intro hSent
    have hWritten : written [i8042DataReg] (acts.map event) =
        Point.first.left.map (i8042DataReg, ·) := by
      rw [written_map_event, hSent]
    refine ⟨hWritten, ?_, ?_⟩
    · intro status result hRounds
      rw [hWritten, written_rounds hRounds]
      rfl
    · intro before v after hSplit
      obtain ⟨earlier, s, rfl, hReady⟩ := flashLed_polled hActs hSplit
      exact ⟨earlier, s, [], rfl, hReady, fun _ _ => List.not_mem_nil⟩

/-- A call of `flash_led` that returns keeps to the protocol when the controller is not busy at
the first poll of the third wait point, right behind the second status that was not busy. -/
theorem flashLed_speaks_iff {regs : Regs} {zf : Bool} {status : List (BitVec 8)}
    {t : State Label}
    (hReturns : Returns ledFlash (start ledFlash .flashLed regs zf status) t) :
    SpeaksProtocol t.log ↔
      ∃ s, (behindReady busy (behindReady busy status)).head? = some s ∧ ¬ busy s := by
  obtain ⟨acts, hActs, hLog⟩ := (returns_iff regs zf status t.log).mp ⟨t, hReturns, rfl⟩
  rw [← hLog, speaksProtocol_iff hActs, sent_eq_iff hActs]

/-- A controller that is never busy. -/
theorem flashLed_speaks_ready : ∃ t,
    Returns ledFlash (start ledFlash .flashLed (fun _ => 0) false [0, 0, 0, 0]) t ∧
      SpeaksProtocol t.log := by
  obtain ⟨t, hReturns, -⟩ :=
    (returns_iff (fun _ => 0) false [0, 0, 0, 0] _).mpr ⟨_, rfl, rfl⟩
  exact ⟨t, hReturns, (flashLed_speaks_iff hReturns).mpr ⟨0, rfl, by decide⟩⟩

/-- A controller that is busy once, at the third wait point: the LEDs are switched on twice. -/
theorem flashLed_busy_third : ¬ ∀ (regs : Regs) (zf : Bool) (status : List (BitVec 8))
    (t : State Label), Returns ledFlash (start ledFlash .flashLed regs zf status) t →
      SpeaksProtocol t.log := by
  intro hSpeaks
  obtain ⟨t, hReturns, hLog⟩ :=
    (returns_iff (fun _ => 0) false [0, 0, 2, 0, 0, 0, 0] _).mpr ⟨_, rfl, rfl⟩
  have hWritten := (hSpeaks _ _ _ t hReturns).written_eq
  rw [hLog] at hWritten
  exact absurd hWritten (by decide)

end DebugCode.LedFlash
