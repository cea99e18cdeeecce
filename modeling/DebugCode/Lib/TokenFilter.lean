import Mathlib.Data.Set.Operations
import Mathlib.Data.List.Flatten

/-!
# Filters that work token by token

A lexicon says how every token is spelled and what a filter prints for it. A function on
streams filters by the lexicon when it consumes one whole token at a time and prints
nothing for the unfinished token a stream may end in.

* `Filters.spellAll_append`: spelled tokens at the front of a stream come out printed.
* `Filters.exists_tokens`: every stream is read as tokens and an unfinished tail.
* `Filters.isPrefix`: a longer stream only adds to what is printed.
* `Filters.idempotent`: a filter that prints every token as it is spelled or not at all
  is idempotent, so its image is its set of fixed points (`Filters.range_eq_fixed`).
-/

namespace DebugCode.Lib

/-- The spelling and the printed form of the tokens `τ` over an alphabet `α`. -/
structure Lexicon (τ α : Type) where
  spell : τ → List α
  print : τ → List α

namespace Lexicon

variable {τ α : Type} {L : Lexicon τ α} {f : List α → List α}

def spellAll (L : Lexicon τ α) (ts : List τ) : List α := ts.flatMap L.spell

def printAll (L : Lexicon τ α) (ts : List τ) : List α := ts.flatMap L.print

@[simp] theorem spellAll_nil : L.spellAll [] = [] := rfl

@[simp] theorem spellAll_cons (t : τ) (ts : List τ) :
    L.spellAll (t :: ts) = L.spell t ++ L.spellAll ts := rfl

@[simp] theorem printAll_nil : L.printAll [] = [] := rfl

@[simp] theorem printAll_cons (t : τ) (ts : List τ) :
    L.printAll (t :: ts) = L.print t ++ L.printAll ts := rfl

/-- `f` reads whole tokens, and every stream is whole tokens and a tail that prints
nothing. -/
structure Filters (L : Lexicon τ α) (f : List α → List α) : Prop where
  token : ∀ t s, f (L.spell t ++ s) = L.print t ++ f s
  total : ∀ s, ∃ ts tail, s = L.spellAll ts ++ tail ∧ f tail = []

namespace Filters

theorem spellAll_append (hf : L.Filters f) (ts : List τ) (s : List α) :
    f (L.spellAll ts ++ s) = L.printAll ts ++ f s := by
  induction ts with
  | nil => rfl
  | cons t ts ih =>
    simp only [spellAll_cons, printAll_cons, List.append_assoc]
    rw [hf.token, ih]

theorem nil (hf : L.Filters f) : f [] = [] := by
  obtain ⟨ts, tail, hs, hTail⟩ := hf.total []
  have hNil : tail = [] := (List.append_eq_nil_iff.mp hs.symm).2
  rwa [hNil] at hTail

theorem spellAll (hf : L.Filters f) (ts : List τ) : f (L.spellAll ts) = L.printAll ts := by
  have h := hf.spellAll_append ts []
  rwa [hf.nil, List.append_nil, List.append_nil] at h

theorem exists_tokens (hf : L.Filters f) (s : List α) :
    ∃ ts tail, s = L.spellAll ts ++ tail ∧ f s = L.printAll ts := by
  obtain ⟨ts, tail, hs, hTail⟩ := hf.total s
  refine ⟨ts, tail, hs, ?_⟩
  rw [hs, hf.spellAll_append, hTail, List.append_nil]

/-- A longer stream only adds to what is printed. -/
theorem isPrefix (hf : L.Filters f) (s s' : List α) : f s <+: f (s ++ s') := by
  obtain ⟨ts, tail, hs, hOut⟩ := hf.exists_tokens s
  rw [hOut, hs, List.append_assoc, hf.spellAll_append]
  exact List.prefix_append _ _

/-- What is printed is again spelled tokens, each of which prints as it is spelled. -/
theorem exists_survivors (hKeep : ∀ t, L.print t = [] ∨ L.print t = L.spell t)
    (ts : List τ) : ∃ us, L.spellAll us = L.printAll ts ∧ L.printAll us = L.printAll ts := by
  induction ts with
  | nil => exact ⟨[], rfl, rfl⟩
  | cons t ts ih =>
    obtain ⟨us, hSpell, hPrint⟩ := ih
    rcases hKeep t with hGone | hKept
    · refine ⟨us, ?_, ?_⟩
      · rw [printAll_cons, hGone, hSpell, List.nil_append]
      · rw [printAll_cons, hGone, hPrint, List.nil_append]
    · refine ⟨t :: us, ?_, ?_⟩
      · rw [spellAll_cons, printAll_cons, hSpell, hKept]
      · rw [printAll_cons, printAll_cons, hPrint]

theorem idempotent (hf : L.Filters f) (hKeep : ∀ t, L.print t = [] ∨ L.print t = L.spell t)
    (s : List α) : f (f s) = f s := by
  obtain ⟨ts, tail, -, hOut⟩ := hf.exists_tokens s
  obtain ⟨us, hSpell, hPrint⟩ := exists_survivors hKeep ts
  calc f (f s) = f (L.spellAll us) := by rw [hOut, hSpell]
    _ = L.printAll us := hf.spellAll us
    _ = f s := by rw [hPrint, hOut]

theorem range_eq_fixed (hf : L.Filters f)
    (hKeep : ∀ t, L.print t = [] ∨ L.print t = L.spell t) :
    Set.range f = {s | f s = s} := by
  ext s
  constructor
  · rintro ⟨s', rfl⟩
    exact hf.idempotent hKeep s'
  · exact fun hFixed => ⟨s, hFixed⟩

end Filters

end Lexicon

end DebugCode.Lib
