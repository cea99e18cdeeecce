import DebugCode.Lib.TokenFilter
import DebugCode.ParseOutput.Filter

/-!
# The tokens of the filter

The streams the filter reads are made of four kinds of token: a byte of text, a two-byte
escape, and a control sequence with or without one `;`. The text and the two-byte escapes
are written back as they are read; the control sequences are dropped.

* `parseEscape_spell`, `parseEscape_truncated`: one call of `parse_escape` consumes one token
  whole, or returns the error code inside a cut-off one.
* `lex`: every input is tokens and a cut-off token.
* `output_filters`: the program filters by this lexicon.
-/

namespace DebugCode.ParseOutput

open Lib

/-- A run of decimal digits, possibly empty. -/
abbrev Digits : Type := { ds : List UInt8 // ∀ d ∈ ds, isDigit d = true }

inductive Token : Type
  /-- Any byte but `ESC`. -/
  | text (ch : UInt8) (hText : ch ≠ esc)
  /-- `ESC ch` with any second byte but `[`, also a second `ESC`. -/
  | escape (ch : UInt8) (hEscape : ch ≠ bracket)
  /-- `ESC [ ds final` with any first byte behind the digits but `;`. -/
  | single (ds : Digits) (final : UInt8) (hFinal : isDigit final = false ∧ final ≠ semicolon)
  /-- `ESC [ ds₁ ; ds₂ final` with any first byte behind the second digits, also `;`. -/
  | double (ds₁ ds₂ : Digits) (final : UInt8) (hFinal : isDigit final = false)

namespace Token

def spell : Token → List UInt8
  | text ch _ => [ch]
  | escape ch _ => [esc, ch]
  | single ds final _ => esc :: bracket :: (ds.1 ++ [final])
  | double ds₁ ds₂ final _ => esc :: bracket :: (ds₁.1 ++ semicolon :: (ds₂.1 ++ [final]))

def print : Token → List UInt8
  | text ch _ => [ch]
  | escape ch _ => [esc, ch]
  | single _ _ _ => []
  | double _ _ _ _ => []

/-- The tokens the filter drops. -/
def isControl : Token → Bool
  | text _ _ => false
  | escape _ _ => false
  | single _ _ _ => true
  | double _ _ _ _ => true

end Token

def lexicon : Lexicon Token UInt8 := ⟨Token.spell, Token.print⟩

/-- What is left of a token when the input ends inside it. -/
inductive Truncated : List UInt8 → Prop
  | nil : Truncated []
  | escape : Truncated [esc]
  | single (ds : Digits) : Truncated (esc :: bracket :: ds.1)
  | double (ds₁ ds₂ : Digits) : Truncated (esc :: bracket :: (ds₁.1 ++ semicolon :: ds₂.1))

theorem isDigit_semicolon : isDigit semicolon = false := rfl

theorem esc_ne_bracket : esc ≠ bracket := by decide

/-! ## The digit loop -/

theorem skipDigits_of_not_digit {ch : UInt8} (hCh : isDigit ch = false) (input : List UInt8) :
    skipDigits ch input = some (ch, input) := by
  cases input <;> simp [skipDigits, hCh]

/-- The loop stops on the first byte behind the digits. -/
theorem skipDigits_digits {ds : List UInt8} (hDigits : ∀ d ∈ ds, isDigit d = true)
    {final : UInt8} (hFinal : isDigit final = false) {s rest : List UInt8} {ch : UInt8}
    (hInput : ch :: rest = ds ++ final :: s) : skipDigits ch rest = some (final, s) := by
  induction ds generalizing ch rest with
  | nil =>
    cases hInput
    exact skipDigits_of_not_digit hFinal s
  | cons d ds ih =>
    obtain ⟨rfl, hRest⟩ := List.cons.inj hInput
    have hTail : ∀ d ∈ ds, isDigit d = true := fun d hd => hDigits d (List.mem_cons_of_mem _ hd)
    cases rest with
    | nil => simp at hRest
    | cons next rest =>
      rw [skipDigits, if_pos (hDigits ch List.mem_cons_self)]
      exact ih hTail hRest

/-- The loop runs into the end of the input when nothing but digits is left. -/
theorem skipDigits_eof {ch : UInt8} {rest : List UInt8}
    (hDigits : ∀ d ∈ ch :: rest, isDigit d = true) : skipDigits ch rest = none := by
  induction rest generalizing ch with
  | nil => simp [skipDigits, hDigits ch List.mem_cons_self]
  | cons next rest ih =>
    simp only [skipDigits, hDigits ch List.mem_cons_self, if_true]
    exact ih fun d hd => hDigits d (List.mem_cons_of_mem _ hd)

/-! ## One token -/

@[simp] theorem main_nil (out : List UInt8) : main ⟨[], out⟩ = ⟨[], out⟩ := by
  rw [main]

theorem main_cons (ch : UInt8) (rest out : List UInt8) :
    main ⟨ch :: rest, out⟩ = main (parseEscape ch ⟨rest, out⟩).2 := by
  rw [main]

/-- Behind `ESC [` the program is in `parse_escape_codes` on the next byte. -/
theorem parseEscape_control (ch : UInt8) (rest out : List UInt8) :
    parseEscape esc ⟨bracket :: ch :: rest, out⟩ = parseEscapeCodes ch ⟨rest, out⟩ := rfl

theorem parseEscapeCodes_single {ds : Digits} {final : UInt8}
    (hFinal : isDigit final = false ∧ final ≠ semicolon) {s rest out : List UInt8} {ch : UInt8}
    (hInput : ch :: rest = ds.1 ++ final :: s) :
    parseEscapeCodes ch ⟨rest, out⟩ = (0, ⟨s, out⟩) := by
  simp only [parseEscapeCodes, skipDigits_digits ds.2 hFinal.1 hInput, hFinal.2, if_false]

theorem parseEscapeCodes_double {ds₁ ds₂ : Digits} {final : UInt8}
    (hFinal : isDigit final = false) {s rest out : List UInt8} {ch : UInt8}
    (hInput : ch :: rest = ds₁.1 ++ semicolon :: (ds₂.1 ++ final :: s)) :
    parseEscapeCodes ch ⟨rest, out⟩ = (0, ⟨s, out⟩) := by
  cases hNext : ds₂.1 ++ final :: s with
  | nil => simp at hNext
  | cons next tail =>
    rw [hNext] at hInput
    simp only [parseEscapeCodes, skipDigits_digits ds₁.2 isDigit_semicolon hInput, if_true,
      skipDigits_digits ds₂.2 hFinal hNext.symm]

/-- One token at the front of the input is consumed whole and printed. -/
theorem parseEscape_spell {t : Token} {ch : UInt8} {s rest : List UInt8}
    (hInput : ch :: rest = t.spell ++ s) (out : List UInt8) :
    parseEscape ch ⟨rest, out⟩ = (0, ⟨s, out ++ t.print⟩) := by
  cases t with
  | text ch hText =>
    cases hInput
    simp [parseEscape, hText, putc, Token.print]
  | escape ch hEscape =>
    cases hInput
    simp [parseEscape, parseEscapeBracket, hEscape, putc, Token.print]
  | single ds final hFinal =>
    simp only [Token.spell, List.cons_append, List.append_assoc, List.nil_append] at hInput
    obtain ⟨rfl, rfl⟩ := List.cons.inj hInput
    simp only [Token.print, List.append_nil]
    cases hDigits : ds.1 ++ final :: s with
    | nil => simp at hDigits
    | cons ch rest => rw [parseEscape_control, parseEscapeCodes_single hFinal hDigits.symm]
  | double ds₁ ds₂ final hFinal =>
    simp only [Token.spell, List.cons_append, List.append_assoc, List.nil_append] at hInput
    obtain ⟨rfl, rfl⟩ := List.cons.inj hInput
    simp only [Token.print, List.append_nil]
    cases hDigits : ds₁.1 ++ semicolon :: (ds₂.1 ++ final :: s) with
    | nil => simp at hDigits
    | cons ch rest => rw [parseEscape_control, parseEscapeCodes_double hFinal hDigits.symm]

theorem Token.spell_length_pos (t : Token) : 0 < t.spell.length := by
  cases t <;> simp [Token.spell]

/-- A token begins with a character. -/
theorem Token.exists_spell_append (t : Token) (s : List UInt8) :
    ∃ ch rest, t.spell ++ s = ch :: rest := by
  apply List.exists_cons_of_length_pos
  rw [List.length_append]
  exact Nat.add_pos_left t.spell_length_pos _

theorem main_spell (t : Token) (s out : List UInt8) :
    main ⟨t.spell ++ s, out⟩ = main ⟨s, out ++ t.print⟩ := by
  obtain ⟨ch, rest, hInput⟩ := t.exists_spell_append s
  rw [hInput, main_cons, parseEscape_spell hInput.symm]

/-! ## A cut-off token -/

theorem parseEscapeCodes_eof {ch : UInt8} {rest out : List UInt8}
    (hDigits : ∀ d ∈ ch :: rest, isDigit d = true) :
    parseEscapeCodes ch ⟨rest, out⟩ = (-1, ⟨[], out⟩) := by
  simp only [parseEscapeCodes, skipDigits_eof hDigits]

theorem parseEscapeCodes_eof_double {ds₁ ds₂ : Digits} {rest out : List UInt8} {ch : UInt8}
    (hInput : ch :: rest = ds₁.1 ++ semicolon :: ds₂.1) :
    parseEscapeCodes ch ⟨rest, out⟩ = (-1, ⟨[], out⟩) := by
  simp only [parseEscapeCodes, skipDigits_digits ds₁.2 isDigit_semicolon hInput, if_true]
  cases hNext : ds₂.1 with
  | nil => rfl
  | cons next tail =>
    have hDigits : ∀ d ∈ next :: tail, isDigit d = true := hNext ▸ ds₂.2
    simp only [skipDigits_eof hDigits]

/-- Inside a cut-off token the program meets the end of the input. Nothing is printed. -/
theorem parseEscape_truncated {ch : UInt8} {rest : List UInt8} (hTail : Truncated (ch :: rest))
    (out : List UInt8) : parseEscape ch ⟨rest, out⟩ = (-1, ⟨[], out⟩) := by
  cases hTail with
  | escape => rfl
  | single ds =>
    cases hDigits : ds.1 with
    | nil => rfl
    | cons ch rest => rw [parseEscape_control, parseEscapeCodes_eof (hDigits ▸ ds.2)]
  | double ds₁ ds₂ =>
    cases hDigits : ds₁.1 ++ semicolon :: ds₂.1 with
    | nil => simp at hDigits
    | cons ch rest => rw [parseEscape_control, parseEscapeCodes_eof_double hDigits.symm]

theorem main_truncated {tail : List UInt8} (hTail : Truncated tail) (out : List UInt8) :
    (main ⟨tail, out⟩).stdout = out := by
  cases tail with
  | nil => rw [main_nil]
  | cons ch rest => rw [main_cons, parseEscape_truncated hTail, main_nil]

/-! ## Every input is tokens -/

/-- The digits at the front of an input and what follows them. -/
theorem exists_digits (s : List UInt8) :
    ∃ (ds : Digits) (rest : List UInt8), s = ds.1 ++ rest ∧
      ∀ ch tail, rest = ch :: tail → isDigit ch = false := by
  induction s with
  | nil => exact ⟨⟨[], by simp⟩, [], rfl, by simp⟩
  | cons ch s ih =>
    cases hCh : isDigit ch with
    | false =>
      refine ⟨⟨[], by simp⟩, ch :: s, rfl, ?_⟩
      rintro _ _ ⟨⟩
      exact hCh
    | true =>
      obtain ⟨ds, rest, rfl, hRest⟩ := ih
      refine ⟨⟨ch :: ds.1, ?_⟩, rest, rfl, hRest⟩
      intro d hd
      rcases List.mem_cons.mp hd with rfl | hd
      · exact hCh
      · exact ds.2 d hd

/-- What follows `ESC [` completes a control sequence or is cut off inside it. -/
theorem control_or_truncated (s : List UInt8) :
    (∃ (t : Token) (rest : List UInt8), esc :: bracket :: s = t.spell ++ rest) ∨
      Truncated (esc :: bracket :: s) := by
  obtain ⟨ds₁, rest, rfl, hRest⟩ := exists_digits s
  cases rest with
  | nil => exact Or.inr (by simpa using Truncated.single ds₁)
  | cons ch tail =>
    have hCh := hRest ch tail rfl
    by_cases hSemi : ch = semicolon
    · subst hSemi
      obtain ⟨ds₂, rest₂, rfl, hRest₂⟩ := exists_digits tail
      cases rest₂ with
      | nil => exact Or.inr (by simpa using Truncated.double ds₁ ds₂)
      | cons final tail =>
        refine Or.inl ⟨.double ds₁ ds₂ final (hRest₂ final tail rfl), tail, ?_⟩
        simp [Token.spell]
    · refine Or.inl ⟨.single ds₁ ch ⟨hCh, hSemi⟩, tail, ?_⟩
      simp [Token.spell]

/-- A stream starts with a whole token or is cut off inside its first one. -/
theorem token_or_truncated (s : List UInt8) :
    (∃ (t : Token) (rest : List UInt8), s = t.spell ++ rest) ∨ Truncated s := by
  cases s with
  | nil => exact Or.inr .nil
  | cons ch s =>
    by_cases hEsc : ch = esc
    · subst hEsc
      cases s with
      | nil => exact Or.inr .escape
      | cons ch s =>
        by_cases hBracket : ch = bracket
        · subst hBracket
          exact control_or_truncated s
        · exact Or.inl ⟨.escape ch hBracket, s, rfl⟩
    · exact Or.inl ⟨.text ch hEsc, s, rfl⟩

theorem lex (s : List UInt8) : ∃ ts tail, s = lexicon.spellAll ts ++ tail ∧ Truncated tail := by
  generalize hLength : s.length = n
  induction n using Nat.strongRecOn generalizing s with
  | ind n ih =>
    rcases token_or_truncated s with ⟨t, rest, rfl⟩ | hTail
    · have hPos := t.spell_length_pos
      rw [List.length_append] at hLength
      obtain ⟨ts, tail, rfl, hTail⟩ := ih rest.length (by omega) rest rfl
      refine ⟨t :: ts, tail, ?_, hTail⟩
      rw [Lexicon.spellAll_cons, List.append_assoc]
      rfl
    · exact ⟨[], s, rfl, hTail⟩

/-! ## The whole program -/

theorem main_spellAll (ts : List Token) (s out : List UInt8) :
    main ⟨lexicon.spellAll ts ++ s, out⟩ = main ⟨s, out ++ lexicon.printAll ts⟩ := by
  induction ts generalizing out with
  | nil => simp
  | cons t ts ih =>
    have hHead := main_spell t (lexicon.spellAll ts ++ s) out
    simp only [Lexicon.spellAll_cons, Lexicon.printAll_cons, List.append_assoc]
    exact hHead.trans (by rw [ih, List.append_assoc]; rfl)

/-- The output for tokens and a cut-off token: the tokens printed. -/
theorem output_tokens (ts : List Token) {tail : List UInt8} (hTail : Truncated tail) :
    output (lexicon.spellAll ts ++ tail) = lexicon.printAll ts := by
  rw [output, main_spellAll, main_truncated hTail, List.nil_append]

theorem output_filters : lexicon.Filters output where
  token t s := by
    obtain ⟨ts, tail, rfl, hTail⟩ := lex s
    have hHead := output_tokens (t :: ts) hTail
    rw [Lexicon.spellAll_cons, Lexicon.printAll_cons, List.append_assoc] at hHead
    rw [hHead, output_tokens ts hTail]
  total s := by
    obtain ⟨ts, tail, hs, hTail⟩ := lex s
    exact ⟨ts, tail, hs, output_tokens [] hTail⟩

end DebugCode.ParseOutput
