import DebugCode.Lib.CString
import DebugCode.Lib.Memory
import Mathlib.Data.UInt

/-!
# The heading of smistat

`smistat.c` prints the number of system management interrupts every second, and the heading again
when its count of rows reaches the height of the terminal, which may change at any time.

* `Counted.round`: how many lines ago the heading was, against the count of rows.
* `heading_visible_iff`: after every line the heading is on a screen that reports its height,
  whatever the heights before were, exactly when the screen has three rows at least.
-/

namespace DebugCode.Smistat

open Lib

/-! ## The functions -/

/-- What `tty_height` finds: whether standard input is a terminal, and `ws_row` when `ioctl`
succeeds. -/
structure Tty where
  isatty : Bool
  wsRow : Option (BitVec 16)

def ttyHeight (tty : Tty) : ℕ :=
  if tty.isatty then
    match tty.wsRow with
    | some wsRow => if 0 < wsRow.toNat then wsRow.toNat else 25
    | none => 25
  else 25

/-- What `readmsr` meets: whether the file can be opened, what `system` returns and whether the file
can be opened then, and the bytes that `pread` delivers. -/
structure Msr where
  opened : Bool
  modprobe : Int
  openedThen : Bool
  pread : Option (List UInt8)

/-- `none` for the result -1. Bytes that are not delivered are those of `value`, which is zero. -/
def readmsr (msr : Msr) : Option ℕ :=
  let read := msr.pread.map fun bs => leValue (bs.take 8)
  if msr.opened then read
  else if msr.modprobe < 0 then none
  else if msr.openedThen then read
  else none

/-- `%2.2d` of a number below 100 -/
def twoDigits (v : ℕ) : List UInt8 := (if v < 10 then ascii "0" else []) ++ decimal v

/-- `struct tm`, as far as it is printed. -/
structure Tm where
  hour : ℕ
  min : ℕ
  sec : ℕ

inductive Line
  | heading
  | sample (tm : Tm) (smicount : ℕ)

def Line.text : Line → List UInt8
  | heading => ascii "  Time        SMIs\n"
  | sample tm smicount => twoDigits tm.hour ++ ascii ":" ++ twoDigits tm.min ++ ascii ":" ++
      twoDigits tm.sec ++ ascii " " ++ padLeft 9 (decimal smicount) ++ ascii "\n"

/-- What a round of the loop meets. -/
structure Second where
  tty : Tty
  tm : Tm
  msr : Msr

/-- `row`, and the lines printed, the last one first. -/
structure State where
  row : ℕ
  lines : List Line

def start : State := ⟨2, [.heading]⟩

/-- `row++`, with the heading when the terminal is full. -/
def State.nextRow (height : ℕ) (s : State) : State :=
  if height ≤ s.row + 1 then ⟨2, .heading :: s.lines⟩ else ⟨s.row + 1, s.lines⟩

/-- A round; the program exits when `readmsr` fails. -/
def round (second : Second) (s : State) : Option State :=
  let s := s.nextRow (ttyHeight second.tty)
  (readmsr second.msr).map fun smicount => ⟨s.row, .sample second.tm smicount :: s.lines⟩

/-- Rounds of the loop, one after the other. -/
def rounds (seconds : List Second) : Option State :=
  seconds.foldlM (fun s second => Smistat.round second s) start

/-! ## The screen -/

/-- The program can find out that the screen has this height. -/
structure Tty.Reports (tty : Tty) (height : ℕ) : Prop where
  isatty : tty.isatty = true
  wsRow : tty.wsRow.map BitVec.toNat = some height
  pos : 0 < height

theorem Tty.Reports.ttyHeight {tty : Tty} {height : ℕ} (h : tty.Reports height) :
    ttyHeight tty = height := by
  obtain ⟨wsRow, hRow, hHeight⟩ := Option.map_eq_some_iff.mp h.wsRow
  have hPos := h.pos
  rw [Smistat.ttyHeight, if_pos h.isatty, hRow]
  dsimp only
  rw [if_pos (by omega), hHeight]

/-- The heading is among the lines above the cursor, which is in the last row of the screen. -/
def HeadingVisible (height : ℕ) (s : State) : Prop := .heading ∈ s.lines.take (height - 1)

/-- The last heading was printed `age` lines ago. -/
inductive Age : List Line → ℕ → Prop
  | heading (lines : List Line) : Age (.heading :: lines) 1
  | sample {lines : List Line} {age : ℕ} (tm : Tm) (smicount : ℕ) :
      Age lines age → Age (.sample tm smicount :: lines) (age + 1)

theorem Age.mem_take_iff {lines : List Line} {age n : ℕ} (h : Age lines age) :
    .heading ∈ lines.take n ↔ age ≤ n := by
  induction h generalizing n with
  | heading lines =>
    cases n with
    | zero => simp
    | succ n => simp
  | sample tm smicount _ ih =>
    cases n with
    | zero => simp
    | succ n =>
      rw [List.take_succ_cons, List.mem_cons, ih]
      simp

/-- The count of rows is at least two, and the heading was printed so many lines ago at most. -/
structure Counted (s : State) : Prop where
  two_le : 2 ≤ s.row
  age : ∃ age, Age s.lines age ∧ age ≤ s.row

theorem counted_start : Counted start where
  two_le := le_rfl
  age := ⟨1, .heading [], by decide⟩

/-- What a round leaves: a count below the height, or the heading right above the new line. -/
theorem Counted.round {s s' : State} {second : Second} (h : Counted s)
    (hRound : Smistat.round second s = some s') :
    Counted s' ∧ ∃ age, Age s'.lines age ∧
      ((age ≤ s'.row ∧ s'.row < ttyHeight second.tty) ∨
        (age = 2 ∧ ttyHeight second.tty ≤ s.row + 1)) := by
  obtain ⟨smicount, -, rfl⟩ := Option.map_eq_some_iff.mp hRound
  obtain ⟨age, hAge, hLe⟩ := h.age
  have hTwo := h.two_le
  by_cases hFull : ttyHeight second.tty ≤ s.row + 1
  · rw [State.nextRow, if_pos hFull]
    have hNew : Age (.sample second.tm smicount :: .heading :: s.lines) 2 :=
      .sample _ _ (.heading s.lines)
    exact ⟨⟨le_rfl, 2, hNew, le_rfl⟩, 2, hNew, Or.inr ⟨rfl, hFull⟩⟩
  · rw [State.nextRow, if_neg hFull]
    have hNew : Age (.sample second.tm smicount :: s.lines) (age + 1) := .sample _ _ hAge
    refine ⟨⟨Nat.le_succ_of_le hTwo, age + 1, hNew, Nat.succ_le_succ hLe⟩, age + 1, hNew, ?_⟩
    exact Or.inl ⟨Nat.succ_le_succ hLe, Nat.lt_of_not_le hFull⟩

theorem Counted.rounds {seconds : List Second} {s s' : State} (h : Counted s)
    (hRounds : seconds.foldlM (fun s second => Smistat.round second s) s = some s') :
    Counted s' := by
  induction seconds generalizing s with
  | nil => exact Option.some.inj hRounds ▸ h
  | cons second seconds ih =>
    rw [List.foldlM_cons] at hRounds
    obtain ⟨next, hFirst, hRest⟩ := Option.bind_eq_some_iff.mp hRounds
    exact ih (h.round hFirst).1 hRest

/-- On a screen that reports its height the heading is visible after every line, whatever heights
there were before and whether or not they were reported, exactly when it has three rows. -/
theorem heading_visible_iff (seconds : List Second) (second : Second) (s : State)
    (hRounds : rounds (seconds ++ [second]) = some s) {height : ℕ}
    (hReports : second.tty.Reports height) : HeadingVisible height s ↔ 3 ≤ height := by
  rw [rounds, List.foldlM_append] at hRounds
  obtain ⟨s', hBefore, hLast⟩ := Option.bind_eq_some_iff.mp hRounds
  have hRound : Smistat.round second s' = some s := by
    simpa using hLast
  have hCounted := counted_start.rounds hBefore
  have hTwo := hCounted.two_le
  have hNext := hCounted.round hRound
  rw [hReports.ttyHeight] at hNext
  obtain ⟨hTwo', age, hAge, hNew | ⟨rfl, hFull⟩⟩ := hNext
  · rw [HeadingVisible, hAge.mem_take_iff]
    have hRow := hTwo'.two_le
    omega
  · rw [HeadingVisible, hAge.mem_take_iff]
    omega

/-- A terminal that shrinks from 25 rows to 3. -/
def shrinking (wsRow : BitVec 16) : Second :=
  ⟨⟨true, some wsRow⟩, ⟨9, 5, 0⟩, ⟨true, 0, false, some [7, 0, 0, 0, 0, 0, 0, 0]⟩⟩

theorem heading_visible_shrinking :
    ∃ s, rounds [shrinking 25, shrinking 25, shrinking 3] = some s ∧
      (HeadingVisible 3 s ↔ 3 ≤ 3) := by
  refine ⟨_, rfl, ?_⟩
  exact heading_visible_iff [shrinking 25, shrinking 25] (shrinking 3) _ rfl
    ⟨rfl, rfl, by decide⟩

end DebugCode.Smistat
