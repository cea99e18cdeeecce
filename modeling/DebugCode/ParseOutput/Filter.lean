import Mathlib.Data.List.Basic

/-!
# The serial output filter

`parse-output.c` function by function. Standard input is the list of the bytes still to be
read, so `getc` returning `EOF` is the empty list; standard output is the list of the bytes
written. Every function returns the C return code and the streams it leaves.
-/

namespace DebugCode.ParseOutput

/-- `#define ESC 27` -/
def esc : UInt8 := 27

/-- `(ch >= '0') && (ch <= '9')` -/
def isDigit (ch : UInt8) : Bool := 48 ≤ ch && ch ≤ 57

/-- The character `;`. -/
def semicolon : UInt8 := 59

/-- The character `[`. -/
def bracket : UInt8 := 91

structure Stdio where
  stdin : List UInt8
  stdout : List UInt8

def putc (ch : UInt8) (io : Stdio) : Stdio := { io with stdout := io.stdout ++ [ch] }

/-- `while (ch is a digit) if ((ch = getc(stdin)) == EOF) return -1;`: the character that
ended the loop and the input behind it, `none` at `EOF`. -/
def skipDigits (ch : UInt8) : List UInt8 → Option (UInt8 × List UInt8)
  | [] => if isDigit ch then none else some (ch, [])
  | next :: rest => if isDigit ch then skipDigits next rest else some (ch, next :: rest)

def parseEscapeCodes (ch : UInt8) (io : Stdio) : Int × Stdio :=
  match skipDigits ch io.stdin with
  | none => (-1, { io with stdin := [] })
  | some (ch, rest) =>
    if ch = semicolon then
      -- the do-while loop reads one character before its first test
      match rest with
      | [] => (-1, { io with stdin := [] })
      | next :: rest =>
        match skipDigits next rest with
        | none => (-1, { io with stdin := [] })
        | some (_, rest) => (0, { io with stdin := rest })
    else (0, { io with stdin := rest })

def parseEscapeBracket (ch : UInt8) (io : Stdio) : Int × Stdio :=
  if ch = bracket then
    match io.stdin with
    | [] => (-1, io)
    | ch :: rest => parseEscapeCodes ch { io with stdin := rest }
  else (0, putc ch (putc esc io))

def parseEscape (ch : UInt8) (io : Stdio) : Int × Stdio :=
  if ch = esc then
    match io.stdin with
    | [] => (-1, io)
    | ch :: rest => parseEscapeBracket ch { io with stdin := rest }
  else (0, putc ch io)

theorem skipDigits_length {ch last : UInt8} {input rest : List UInt8}
    (h : skipDigits ch input = some (last, rest)) : rest.length ≤ input.length := by
  induction input generalizing ch with
  | nil =>
    simp only [skipDigits] at h
    split at h
    · cases h
    · cases h
      exact Nat.le_refl _
  | cons next input ih =>
    simp only [skipDigits] at h
    split at h
    · have := ih h
      simp only [List.length_cons]
      omega
    · cases h
      exact Nat.le_refl _

theorem parseEscapeCodes_length (ch : UInt8) (io : Stdio) :
    (parseEscapeCodes ch io).2.stdin.length ≤ io.stdin.length := by
  unfold parseEscapeCodes
  split
  · exact Nat.zero_le _
  · rename_i last rest hSkip
    have hRest := skipDigits_length hSkip
    split
    · split
      · exact Nat.zero_le _
      · rename_i next rest'
        split
        · exact Nat.zero_le _
        · rename_i last' rest'' hSkip'
          have := skipDigits_length hSkip'
          simp only [List.length_cons] at hRest
          dsimp only
          omega
    · exact hRest

theorem parseEscapeBracket_length (ch : UInt8) (io : Stdio) :
    (parseEscapeBracket ch io).2.stdin.length ≤ io.stdin.length := by
  unfold parseEscapeBracket
  split
  · split
    · exact Nat.le_refl _
    · rename_i next rest hIn
      have := parseEscapeCodes_length next { io with stdin := rest }
      simp only [hIn, List.length_cons]
      dsimp only at this
      omega
  · exact Nat.le_refl _

theorem parseEscape_length (ch : UInt8) (io : Stdio) :
    (parseEscape ch io).2.stdin.length ≤ io.stdin.length := by
  unfold parseEscape
  split
  · split
    · exact Nat.le_refl _
    · rename_i next rest hIn
      have := parseEscapeBracket_length next { io with stdin := rest }
      simp only [hIn, List.length_cons]
      dsimp only at this
      omega
  · exact Nat.le_refl _

/-- `while ((ch = getc(stdin)) != EOF) parse_escape(ch);`: the return code of `parse_escape`
is not looked at. -/
def main (io : Stdio) : Stdio :=
  match hIn : io.stdin with
  | [] => io
  | ch :: rest => main (parseEscape ch { io with stdin := rest }).2
termination_by io.stdin.length
decreasing_by
  have := parseEscape_length ch { io with stdin := rest }
  simp only [hIn, List.length_cons]
  dsimp only at this
  omega

/-- What the program writes for the input `s`. -/
def output (s : List UInt8) : List UInt8 := (main ⟨s, []⟩).stdout

end DebugCode.ParseOutput
