import DebugCode.ParseOutput.Lexing
import Mathlib.Data.List.Infix
import Mathlib.Data.List.Flatten

/-!
# What the filter removes

The program is meant to rip the VT escape sequences out of a serial log.

* `output_input_eq_text_iff`: on plain runs and complete control sequences, the output is
  the plain runs exactly when every sequence has at most two parameters. The parameter
  parser reads one `;` only; from the second `;` on, the sequence comes out as text.
* `output_idempotent`: a filtered stream is filtered to itself.
* `introducer_free_iff`: `ESC [` is left in the output exactly when a two-byte escape
  `ESC ESC` stands in front of a `[`, directly or across dropped control sequences.
-/

namespace DebugCode.ParseOutput

open Lib

/-! ## Plain runs and control sequences -/

/-- A plain run without `ESC`, or a complete sequence `ESC [ p₁ ; ... ; pₖ final`. -/
inductive Segment : Type
  | plain (run : List UInt8) (hRun : ∀ ch ∈ run, ch ≠ esc)
  | csi (params : List Digits) (final : UInt8) (hFinal : 0x40 ≤ final ∧ final ≤ 0x7E)

/-- `p₁ ; ... ; pₖ final` -/
def csiTail (params : List Digits) (final : UInt8) : List UInt8 :=
  [semicolon].intercalate (params.map (fun p => p.1)) ++ [final]

namespace Segment

def bytes : Segment → List UInt8
  | plain run _ => run
  | csi params final _ => esc :: bracket :: csiTail params final

/-- What a segment should leave in the output. -/
def text : Segment → List UInt8
  | plain run _ => run
  | csi _ _ _ => []

/-- The sequence has at most two parameters. -/
def Short : Segment → Prop
  | plain _ _ => True
  | csi params _ _ => params.length ≤ 2

/-- The tail of a control sequence from behind its second `;`. -/
def leak : Segment → List UInt8
  | csi (_ :: _ :: p :: params) final _ => csiTail (p :: params) final
  | _ => []

/-- What a segment does leave in the output. -/
def shown (seg : Segment) : List UInt8 := seg.text ++ seg.leak

end Segment

def input (segs : List Segment) : List UInt8 := segs.flatMap Segment.bytes

def text (segs : List Segment) : List UInt8 := segs.flatMap Segment.text

theorem final_not_digit {final : UInt8} (hFinal : 0x40 ≤ final ∧ final ≤ 0x7E) :
    isDigit final = false ∧ final ≠ semicolon ∧ final ≠ esc := by
  simp only [isDigit, semicolon, esc, Bool.and_eq_false_iff, decide_eq_false_iff_not]
  refine ⟨Or.inr ?_, ?_, ?_⟩ <;> grind

theorem digit_ne_esc {d : UInt8} (hDigit : isDigit d = true) : d ≠ esc := by
  rintro rfl
  exact absurd hDigit (by decide)

@[simp] theorem csiTail_nil (final : UInt8) : csiTail [] final = [final] := rfl

@[simp] theorem csiTail_singleton (p : Digits) (final : UInt8) :
    csiTail [p] final = p.1 ++ [final] := by
  simp [csiTail]

@[simp] theorem csiTail_cons_cons (p q : Digits) (params : List Digits) (final : UInt8) :
    csiTail (p :: q :: params) final = p.1 ++ semicolon :: csiTail (q :: params) final := by
  simp [csiTail, List.intercalate]

/-- No byte behind `ESC [` is an `ESC`. -/
theorem csiTail_ne_esc (params : List Digits) {final : UInt8} (hFinal : final ≠ esc) :
    ∀ ch ∈ csiTail params final, ch ≠ esc := by
  induction params with
  | nil => simpa using hFinal
  | cons p params ih =>
    intro ch hch
    cases params with
    | nil =>
      rw [csiTail_singleton, List.mem_append, List.mem_singleton] at hch
      rcases hch with hch | rfl
      · exact digit_ne_esc (p.2 ch hch)
      · exact hFinal
    | cons q params =>
      rw [csiTail_cons_cons, List.mem_append, List.mem_cons] at hch
      rcases hch with hch | rfl | hch
      · exact digit_ne_esc (p.2 ch hch)
      · decide
      · exact ih ch hch

/-- Bytes other than `ESC` in front of a stream come out unchanged. -/
theorem output_plain {run : List UInt8} (hRun : ∀ ch ∈ run, ch ≠ esc) (s : List UInt8) :
    output (run ++ s) = run ++ output s := by
  induction run with
  | nil => rfl
  | cons ch run ih =>
    have hHead := output_filters.token (.text ch (hRun ch List.mem_cons_self)) (run ++ s)
    have hTail := ih fun c hc => hRun c (List.mem_cons_of_mem _ hc)
    rw [hTail] at hHead
    exact hHead

/-- The bytes of a sequence are one token and, from the third parameter on, a leak. -/
theorem csi_eq_control (params : List Digits) {final : UInt8}
    (hFinal : 0x40 ≤ final ∧ final ≤ 0x7E) :
    ∃ t : Token, t.print = [] ∧ (Segment.csi params final hFinal).bytes =
      t.spell ++ (Segment.csi params final hFinal).leak := by
  obtain ⟨hDigit, hSemi, -⟩ := final_not_digit hFinal
  rcases params with _ | ⟨p, _ | ⟨q, _ | ⟨r, params⟩⟩⟩
  · exact ⟨.single ⟨[], by simp⟩ final ⟨hDigit, hSemi⟩, rfl, rfl⟩
  · refine ⟨.single p final ⟨hDigit, hSemi⟩, rfl, ?_⟩
    simp [Segment.bytes, Segment.leak, Token.spell]
  · refine ⟨.double p q final hDigit, rfl, ?_⟩
    simp [Segment.bytes, Segment.leak, Token.spell]
  · refine ⟨.double p q semicolon isDigit_semicolon, rfl, ?_⟩
    simp [Segment.bytes, Segment.leak, Token.spell]

theorem leak_ne_esc (seg : Segment) : ∀ ch ∈ seg.leak, ch ≠ esc := by
  rcases seg with ⟨run, hRun⟩ | ⟨_ | ⟨p, _ | ⟨q, _ | ⟨r, params⟩⟩⟩, final, hFinal⟩
  · simp [Segment.leak]
  · simp [Segment.leak]
  · simp [Segment.leak]
  · simp [Segment.leak]
  · exact csiTail_ne_esc (r :: params) (final_not_digit hFinal).2.2

theorem leak_eq_nil_iff (seg : Segment) : seg.leak = [] ↔ seg.Short := by
  rcases seg with ⟨run, hRun⟩ | ⟨_ | ⟨p, _ | ⟨q, _ | ⟨r, params⟩⟩⟩, final, hFinal⟩
  · simp [Segment.leak, Segment.Short]
  · simp [Segment.leak, Segment.Short]
  · simp [Segment.leak, Segment.Short]
  · simp [Segment.leak, Segment.Short]
  · simp [Segment.leak, Segment.Short, csiTail]

/-- The step lemma for one segment. -/
theorem output_segment (seg : Segment) (s : List UInt8) :
    output (seg.bytes ++ s) = seg.shown ++ output s := by
  cases seg with
  | plain run hRun =>
    have hShown : (Segment.plain run hRun).shown = run := List.append_nil run
    rw [hShown]
    exact output_plain hRun s
  | csi params final hFinal =>
    obtain ⟨t, hPrint, hBytes⟩ := csi_eq_control params hFinal
    have hHead := output_filters.token t ((Segment.csi params final hFinal).leak ++ s)
    rw [hBytes, List.append_assoc]
    rw [output_plain (leak_ne_esc _) s] at hHead
    rw [show Segment.shown _ = Segment.leak _ from rfl]
    exact hHead.trans (by rw [show lexicon.print t = [] from hPrint, List.nil_append])

theorem output_input (segs : List Segment) : output (input segs) = segs.flatMap Segment.shown := by
  induction segs with
  | nil => exact output_filters.nil
  | cons seg segs ih =>
    rw [input, List.flatMap_cons, output_segment, List.flatMap_cons]
    exact congrArg (seg.shown ++ ·) ih

theorem text_length_le (segs : List Segment) :
    (text segs).length ≤ (segs.flatMap Segment.shown).length := by
  induction segs with
  | nil => exact Nat.le_refl _
  | cons seg segs ih =>
    simp only [text, List.flatMap_cons, Segment.shown, List.length_append] at ih ⊢
    omega

/-- Nothing is shown beyond the text exactly when nothing leaks. -/
theorem shown_eq_text_iff (segs : List Segment) :
    segs.flatMap Segment.shown = text segs ↔ ∀ seg ∈ segs, seg.leak = [] := by
  induction segs with
  | nil => simp [text]
  | cons seg segs ih =>
    rw [List.forall_mem_cons, ← ih]
    constructor
    · intro h
      have hLe := text_length_le segs
      have hLength := congrArg List.length h
      simp only [text, List.flatMap_cons, Segment.shown, List.length_append] at hLength hLe
      have hLeak : seg.leak = [] := List.length_eq_zero_iff.mp (by omega)
      refine ⟨hLeak, ?_⟩
      simpa [text, List.flatMap_cons, Segment.shown, hLeak] using h
    · rintro ⟨hLeak, hRest⟩
      simp only [text, List.flatMap_cons, Segment.shown, hLeak, List.append_nil] at hRest ⊢
      rw [← hRest]

/-- The output of plain runs and control sequences is the plain runs exactly when no
sequence has more than two parameters. -/
theorem output_input_eq_text_iff (segs : List Segment) :
    output (input segs) = text segs ↔ ∀ seg ∈ segs, seg.Short := by
  rw [output_input, shown_eq_text_iff]
  exact forall₂_congr fun seg _ => leak_eq_nil_iff seg

def oneDigit (d : UInt8) (hDigit : isDigit d = true) : Digits :=
  ⟨[d], by simpa using hDigit⟩

/-- `ESC [ 1 ; 2 ; 3 m` leaves `3m` behind. -/
theorem output_input_ne_text : ¬ ∀ segs : List Segment, output (input segs) = text segs := by
  intro h
  have hLeak := h [.csi [oneDigit 49 rfl, oneDigit 50 rfl, oneDigit 51 rfl] 109 (by decide)]
  rw [output_input, shown_eq_text_iff] at hLeak
  have hThree := hLeak _ List.mem_cons_self
  cases hThree

/-! ## Filtering twice -/

theorem print_eq_nil_or_spell (t : Token) :
    lexicon.print t = [] ∨ lexicon.print t = lexicon.spell t := by
  cases t with
  | text ch hText => exact Or.inr rfl
  | escape ch hEscape => exact Or.inr rfl
  | single ds final hFinal => exact Or.inl rfl
  | double ds₁ ds₂ final hFinal => exact Or.inl rfl

/-- The filter is idempotent, and its image is its set of fixed points. -/
theorem output_idempotent :
    (∀ s, output (output s) = output s) ∧ Set.range output = {s | output s = s} :=
  ⟨output_filters.idempotent print_eq_nil_or_spell,
    output_filters.range_eq_fixed print_eq_nil_or_spell⟩

/-! ## Introducers in the output -/

/-- Read from the left, a two-byte escape `ESC ESC` stands in front of a `[`, with nothing
between them but control sequences that are dropped. -/
def PairBeforeBracket (s : List UInt8) : Prop :=
  ∃ (before controls : List Token) (after : List UInt8), (∀ t ∈ controls, t.isControl = true) ∧
    s = lexicon.spellAll before ++ esc :: esc :: (lexicon.spellAll controls ++ bracket :: after)

theorem print_of_isControl {t : Token} (h : t.isControl = true) : lexicon.print t = [] := by
  cases t with
  | text ch hText => cases h
  | escape ch hEscape => cases h
  | single ds final hFinal => rfl
  | double ds₁ ds₂ final hFinal => rfl

theorem printAll_controls {ts : List Token} (h : ∀ t ∈ ts, t.isControl = true) :
    lexicon.printAll ts = [] := by
  induction ts with
  | nil => rfl
  | cons t ts ih =>
    rw [Lexicon.printAll_cons, print_of_isControl (h t List.mem_cons_self),
      ih fun u hu => h u (List.mem_cons_of_mem _ hu), List.append_nil]

/-- A printed stream that starts with a `[` comes from dropped sequences and that `[`. -/
theorem exists_controls_bracket {ts : List Token} {rest : List UInt8}
    (h : lexicon.printAll ts = bracket :: rest) :
    ∃ controls after, (∀ t ∈ controls, t.isControl = true) ∧
      lexicon.spellAll ts = lexicon.spellAll controls ++ bracket :: after := by
  induction ts with
  | nil => cases h
  | cons t ts ih =>
    cases hControl : t.isControl with
    | true =>
      rw [Lexicon.printAll_cons, print_of_isControl hControl, List.nil_append] at h
      obtain ⟨controls, after, hAll, hSpell⟩ := ih h
      refine ⟨t :: controls, after, ?_, ?_⟩
      · rw [List.forall_mem_cons]
        exact ⟨hControl, hAll⟩
      · rw [Lexicon.spellAll_cons, Lexicon.spellAll_cons, hSpell, List.append_assoc]
    | false =>
      cases t with
      | text ch hText =>
        obtain rfl : ch = bracket := (List.cons.inj h).1
        exact ⟨[], lexicon.spellAll ts, by simp, rfl⟩
      | escape ch hEscape => exact absurd (List.cons.inj h).1 esc_ne_bracket
      | single ds final hFinal => cases hControl
      | double ds₁ ds₂ final hFinal => cases hControl

theorem PairBeforeBracket.cons (t : Token) {s : List UInt8} (h : PairBeforeBracket s) :
    PairBeforeBracket (lexicon.spell t ++ s) := by
  obtain ⟨before, controls, after, hAll, rfl⟩ := h
  refine ⟨t :: before, controls, after, hAll, ?_⟩
  rw [Lexicon.spellAll_cons, List.append_assoc]

/-- The induction is on the tokens: an introducer inside one printed token or across two
needs a first `ESC` that is not itself followed by `[`. -/
theorem pairBeforeBracket_of_infix {ts : List Token} (tail : List UInt8)
    (h : [esc, bracket] <:+: lexicon.printAll ts) :
    PairBeforeBracket (lexicon.spellAll ts ++ tail) := by
  induction ts with
  | nil => exact absurd (List.infix_nil.mp h) (by decide)
  | cons t ts ih =>
    rw [Lexicon.spellAll_cons, List.append_assoc]
    cases t with
    | text ch hText =>
      rcases List.infix_cons_iff.mp h with hHead | hRest
      · exact absurd (List.cons_prefix_cons.mp hHead).1.symm hText
      · exact (ih hRest).cons _
    | escape ch hEscape =>
      rcases List.infix_cons_iff.mp h with hHead | hRest
      · have hSecond := (List.cons_prefix_cons.mp hHead).2
        exact absurd (List.cons_prefix_cons.mp hSecond).1.symm hEscape
      rcases List.infix_cons_iff.mp hRest with hHead | hRest
      · obtain ⟨hEsc, rest, hBracket⟩ := List.cons_prefix_cons.mp hHead
        obtain ⟨controls, after, hAll, hSpell⟩ := exists_controls_bracket hBracket.symm
        refine ⟨[], controls, after ++ tail, hAll, ?_⟩
        rw [hSpell]
        subst hEsc
        simp [lexicon, Token.spell]
      · exact (ih hRest).cons _
    | single ds final hFinal => exact (ih h).cons _
    | double ds₁ ds₂ final hFinal => exact (ih h).cons _

theorem infix_of_pairBeforeBracket {s : List UInt8} (h : PairBeforeBracket s) :
    [esc, bracket] <:+: output s := by
  obtain ⟨before, controls, after, hAll, rfl⟩ := h
  have hPair : esc :: esc :: (lexicon.spellAll controls ++ bracket :: after) =
      lexicon.spell (.escape esc esc_ne_bracket) ++ (lexicon.spellAll controls ++
        (lexicon.spell (.text bracket (by decide)) ++ after)) := rfl
  rw [output_filters.spellAll_append, hPair, output_filters.token,
    output_filters.spellAll_append, printAll_controls hAll, output_filters.token]
  exact ⟨lexicon.printAll before ++ [esc], output after, by simp [lexicon, Token.print]⟩

/-- The output is free of `ESC [` exactly when the input has no `ESC ESC` pair in front of
a `[`. -/
theorem introducer_free_iff (s : List UInt8) :
    ¬ [esc, bracket] <:+: output s ↔ ¬ PairBeforeBracket s := by
  refine not_congr ⟨?_, infix_of_pairBeforeBracket⟩
  intro h
  obtain ⟨ts, tail, hs, hOut⟩ := output_filters.exists_tokens s
  rw [hs]
  exact pairBeforeBracket_of_infix tail (hOut ▸ h)

/-- `ESC ESC [` is written back as it is read. -/
theorem introducer_left : ¬ ∀ s, ¬ [esc, bracket] <:+: output s := by
  intro h
  exact h [esc, esc, bracket] (infix_of_pairBeforeBracket ⟨[], [], [], by simp, rfl⟩)

end DebugCode.ParseOutput
