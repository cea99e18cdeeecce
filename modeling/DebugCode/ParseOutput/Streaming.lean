import DebugCode.ParseOutput.Lexing
import Mathlib.Algebra.Group.Nat.Even
import Mathlib.Data.List.DropRight
import Mathlib.Tactic.Common

/-!
# The filter on a stream

The program holds back what it has read of a token until the token ends. At the end of the
input that part is dropped.

* `output_isPrefix_and_append`: cutting the input takes nothing but an end off the output,
  and where the program is back in the loop of `main` the output can be cut there too.
* `output_eq_self_iff`: an input without `ESC [` comes out unchanged when it ends in an even
  number of `ESC` bytes. The last one of an odd number is lost: at the end of the input
  `parse_escape` does not hand it back, as `parse_escape_bracket` does at another byte.
-/

namespace DebugCode.ParseOutput

open Lib

/-- The input ends where `main` reads: every call of `parse_escape` has returned `0`. -/
def returnsToMain (io : Stdio) : Bool :=
  match _hIn : io.stdin with
  | [] => true
  | ch :: rest =>
    let result := parseEscape ch { io with stdin := rest }
    result.1 = 0 && returnsToMain result.2
termination_by io.stdin.length
decreasing_by
  have := parseEscape_length ch { io with stdin := rest }
  simp only [_hIn, List.length_cons]
  dsimp only at this
  omega

/-! ## Where the input can be cut -/

theorem returnsToMain_cons (ch : UInt8) (rest out : List UInt8) :
    returnsToMain ⟨ch :: rest, out⟩ =
      ((parseEscape ch ⟨rest, out⟩).1 = 0 && returnsToMain (parseEscape ch ⟨rest, out⟩).2) := by
  rw [returnsToMain]

theorem returnsToMain_spell (t : Token) (s out : List UInt8) :
    returnsToMain ⟨t.spell ++ s, out⟩ = returnsToMain ⟨s, out ++ t.print⟩ := by
  obtain ⟨ch, rest, hInput⟩ := t.exists_spell_append s
  simp [hInput, returnsToMain_cons, parseEscape_spell hInput.symm]

theorem returnsToMain_spellAll (ts : List Token) (s out : List UInt8) :
    returnsToMain ⟨lexicon.spellAll ts ++ s, out⟩ =
      returnsToMain ⟨s, out ++ lexicon.printAll ts⟩ := by
  induction ts generalizing out with
  | nil => simp
  | cons t ts ih =>
    simp only [Lexicon.spellAll_cons, Lexicon.printAll_cons, List.append_assoc]
    exact (returnsToMain_spell t _ out).trans (by rw [ih, List.append_assoc]; rfl)

/-- Inside a cut-off token the program is not in the loop of `main`. -/
theorem eq_nil_of_returnsToMain {tail out : List UInt8} (hTail : Truncated tail)
    (hMain : returnsToMain ⟨tail, out⟩ = true) : tail = [] := by
  cases tail with
  | nil => rfl
  | cons ch rest => simp [returnsToMain_cons, parseEscape_truncated hTail] at hMain

/-- An input after which the program is back in the loop is whole tokens. -/
theorem exists_spellAll_of_returnsToMain {s : List UInt8} (hMain : returnsToMain ⟨s, []⟩ = true) :
    ∃ ts, s = lexicon.spellAll ts := by
  obtain ⟨ts, tail, rfl, hTail⟩ := lex s
  rw [returnsToMain_spellAll] at hMain
  exact ⟨ts, by rw [eq_nil_of_returnsToMain hTail hMain, List.append_nil]⟩

/-- The output for the beginning of an input is a beginning of the output, and after a
beginning that leaves the program in the loop of `main` the rest is filtered by itself. -/
theorem output_isPrefix_and_append (s t : List UInt8) :
    output s <+: output (s ++ t) ∧
      (returnsToMain ⟨s, []⟩ = true → output (s ++ t) = output s ++ output t) := by
  constructor
  · exact output_filters.isPrefix s t
  · intro hMain
    obtain ⟨ts, rfl⟩ := exists_spellAll_of_returnsToMain hMain
    rw [output_filters.spellAll_append, output_filters.spellAll]

/-- After `A ESC ESC` the program is back in the loop. -/
theorem output_append_escaped :
    output ([65, 27, 27] ++ [91, 48]) = output [65, 27, 27] ++ output [91, 48] := by
  have hMain : returnsToMain ⟨[65, 27, 27], []⟩ = true := by
    simp [returnsToMain, parseEscape, parseEscapeBracket, putc, esc, bracket]
  exact (output_isPrefix_and_append [65, 27, 27] [91, 48]).2 hMain

/-! ## Inputs without control sequences -/

/-- How many `ESC` bytes the input ends in. -/
def trailingEscapes (s : List UInt8) : Nat := (s.rtakeWhile (· == esc)).length

theorem trailingEscapes_append_esc (s : List UInt8) :
    trailingEscapes (s ++ [esc]) = trailingEscapes s + 1 := by
  have hEsc : (esc == esc) = true := beq_self_eq_true esc
  rw [trailingEscapes, List.rtakeWhile_concat_pos (· == esc) s esc hEsc, List.length_append]
  rfl

theorem trailingEscapes_append_of_ne (s : List UInt8) {ch : UInt8} (hCh : ch ≠ esc) :
    trailingEscapes (s ++ [ch]) = 0 := by
  rw [trailingEscapes, List.rtakeWhile_concat_neg _ _ _ (by simpa using hCh), List.length_nil]

/-- A two-byte escape adds two `ESC` bytes to the run or ends it. -/
theorem even_trailingEscapes_escape (s : List UInt8) (ch : UInt8)
    (hEven : Even (trailingEscapes s)) : Even (trailingEscapes (s ++ [esc, ch])) := by
  rw [List.append_cons s esc [ch]]
  by_cases hCh : ch = esc
  · rw [hCh, trailingEscapes_append_esc, trailingEscapes_append_esc]
    exact hEven.add ⟨1, rfl⟩
  · rw [trailingEscapes_append_of_ne _ hCh]
    exact Even.zero

/-- A stream without `ESC [` has no control sequence among its tokens. -/
theorem not_isControl_of_not_infix {ts : List Token} {tail : List UInt8}
    (hNo : ¬ [esc, bracket] <:+: lexicon.spellAll ts ++ tail) {t : Token} (ht : t ∈ ts) :
    t.isControl = false := by
  have hSpell : t.spell <:+: lexicon.spellAll ts ++ tail := by
    obtain ⟨us, vs, rfl⟩ := List.append_of_mem ht
    refine ⟨lexicon.spellAll us, lexicon.spellAll vs ++ tail, ?_⟩
    simp [Lexicon.spellAll, lexicon]
  cases t with
  | text ch hText => rfl
  | escape ch hEscape => rfl
  | single ds final hFinal => exact absurd (List.IsInfix.trans ⟨[], _, rfl⟩ hSpell) hNo
  | double ds₁ ds₂ final hFinal => exact absurd (List.IsInfix.trans ⟨[], _, rfl⟩ hSpell) hNo

/-- Tokens that are no control sequences print as they are spelled, and pair the `ESC`
bytes at their end. -/
theorem printAll_eq_spellAll {ts : List Token} (hKept : ∀ t ∈ ts, t.isControl = false) :
    lexicon.printAll ts = lexicon.spellAll ts ∧ Even (trailingEscapes (lexicon.spellAll ts)) := by
  induction ts using List.reverseRecOn with
  | nil => exact ⟨rfl, Even.zero⟩
  | append_singleton ts t ih =>
    obtain ⟨hPrint, hEven⟩ := ih fun t ht => hKept t (List.mem_append_left _ ht)
    have hLast := hKept t (List.mem_append_right _ List.mem_cons_self)
    have hSpell : lexicon.spellAll (ts ++ [t]) = lexicon.spellAll ts ++ t.spell := by
      simp [Lexicon.spellAll, lexicon]
    have hPrinted : lexicon.printAll (ts ++ [t]) = lexicon.printAll ts ++ t.print := by
      simp [Lexicon.printAll, lexicon]
    rw [hSpell, hPrinted, hPrint]
    cases t with
    | text ch hText =>
      refine ⟨rfl, ?_⟩
      rw [Token.spell, trailingEscapes_append_of_ne _ hText]
      exact Even.zero
    | escape ch hEscape => exact ⟨rfl, even_trailingEscapes_escape _ ch hEven⟩
    | single ds final hFinal => cases hLast
    | double ds₁ ds₂ final hFinal => cases hLast

/-- The only cut-off token without `ESC [` is an `ESC` at the very end. -/
theorem truncated_cases {tail : List UInt8} (hTail : Truncated tail)
    (hNo : ¬ [esc, bracket] <:+: tail) : tail = [] ∨ tail = [esc] := by
  cases hTail with
  | nil => exact Or.inl rfl
  | escape => exact Or.inr rfl
  | single ds => exact absurd ⟨[], ds.1, rfl⟩ hNo
  | double ds₁ ds₂ => exact absurd ⟨[], ds₁.1 ++ semicolon :: ds₂.1, rfl⟩ hNo

/-- An input without `ESC [` is written as it was read exactly when it ends in an even
number of `ESC` bytes. -/
theorem output_eq_self_iff (s : List UInt8) (hNo : ¬ [esc, bracket] <:+: s) :
    output s = s ↔ Even (trailingEscapes s) := by
  obtain ⟨ts, tail, rfl, hTail⟩ := lex s
  obtain ⟨hPrint, hEven⟩ := printAll_eq_spellAll fun _ ht => not_isControl_of_not_infix hNo ht
  rw [output_tokens ts hTail, hPrint]
  rcases truncated_cases hTail fun hIn => hNo (hIn.trans (List.suffix_append _ _).isInfix)
    with rfl | rfl
  · simp only [List.append_nil, hEven]
  · rw [trailingEscapes_append_esc, Nat.even_add_one]
    simp [hEven]

/-- `ESC A` with an `ESC` pair behind it. -/
theorem output_escape_pair : output [27, 65, 27, 27] = [27, 65, 27, 27] :=
  (output_eq_self_iff [27, 65, 27, 27] (by decide)).mpr ⟨1, rfl⟩

/-- A single `ESC` at the end of the input is lost. -/
theorem output_drops_trailing_esc :
    ¬ [esc, bracket] <:+: [65, esc] ∧ output [65, esc] ≠ [65, esc] := by
  refine ⟨by decide, ?_⟩
  simp [output, main, parseEscape, putc, esc]

end DebugCode.ParseOutput
