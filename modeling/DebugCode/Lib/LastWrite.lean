import Mathlib.Data.Set.Function
import Mathlib.Order.Bounds.Basic
import Mathlib.Tactic.Common

/-!
# Stores in which the last write wins

Writes `0, 1, ..., n - 1` go to addresses of any type, write `i` to `place i`. Two writes may
share an address, and then the later one stays.

* `exists_superseded_iff`: some write is lost exactly when the placement is not injective.
* `lastWrite_eq_some_iff`: the write that an address holds.
* `update_stored`: the store after one more write.
* `stored_of_not_superseded`, `stored_of_superseded`: what is found where a write went.
-/

namespace DebugCode.Lib

variable {κ α : Type}

/-- A later write goes to the same address. -/
def Superseded (place : Nat → κ) (n i : Nat) : Prop := ∃ j, i < j ∧ j < n ∧ place j = place i

theorem exists_superseded_iff {place : Nat → κ} {n : Nat} :
    (∃ i < n, Superseded place n i) ↔ ¬ Set.InjOn place (Set.Iio n) := by
  constructor
  · rintro ⟨i, hi, j, hLow, hHigh, hSame⟩ hInj
    have hEq : j = i := hInj hHigh hi hSame
    omega
  · intro hNot
    by_contra hNone
    refine hNot fun i hi j hj hSame => ?_
    rcases Nat.lt_trichotomy i j with hLt | hEq | hLt
    · exact absurd ⟨i, hi, j, hLt, hj, hSame.symm⟩ hNone
    · exact hEq
    · exact absurd ⟨j, hj, i, hLt, hi, hSame⟩ hNone

variable [DecidableEq κ]

/-- The last of the first `n` writes to an address. -/
def lastWrite (place : Nat → κ) : Nat → κ → Option Nat
  | 0, _ => none
  | n + 1, address => if place n = address then some n else lastWrite place n address

/-- The contents after `n` writes: `value i` is what write `i` stores. -/
def stored (place : Nat → κ) (value : Nat → α) (initial : κ → α) (n : Nat) (address : κ) : α :=
  ((lastWrite place n address).map value).getD (initial address)

section

variable {place : Nat → κ} {value : Nat → α} {initial : κ → α} {n i j : Nat} {address : κ}

theorem lastWrite_eq_some_iff :
    lastWrite place n address = some i ↔
      i < n ∧ place i = address ∧ ∀ j, i < j → j < n → place j ≠ address := by
  induction n with
  | zero =>
    constructor
    · rintro ⟨⟩
    · rintro ⟨hi, -⟩
      omega
  | succ n ih =>
    rw [lastWrite]
    by_cases hHere : place n = address
    · rw [if_pos hHere]
      constructor
      · rintro ⟨⟩
        refine ⟨by omega, hHere, ?_⟩
        intro j hLow hHigh
        omega
      · rintro ⟨hi, -, hLast⟩
        rcases Nat.lt_succ_iff_lt_or_eq.mp hi with hEarlier | rfl
        · exact absurd hHere (hLast n hEarlier (Nat.lt_succ_self n))
        · rfl
    · rw [if_neg hHere, ih]
      constructor
      · rintro ⟨hi, hPlace, hLast⟩
        refine ⟨by omega, hPlace, ?_⟩
        intro j hLow hHigh
        rcases Nat.lt_succ_iff_lt_or_eq.mp hHigh with hEarlier | rfl
        · exact hLast j hLow hEarlier
        · exact hHere
      · rintro ⟨hi, hPlace, hLast⟩
        rcases Nat.lt_succ_iff_lt_or_eq.mp hi with hEarlier | rfl
        · exact ⟨hEarlier, hPlace, fun j hLow hHigh => hLast j hLow (by omega)⟩
        · exact absurd hPlace hHere

/-- An address that has been written holds one of the writes to it. -/
theorem exists_lastWrite (hi : i < n) :
    ∃ j, lastWrite place n (place i) = some j ∧ i ≤ j ∧ j < n := by
  induction n with
  | zero => omega
  | succ n ih =>
    rw [lastWrite]
    by_cases hHere : place n = place i
    · exact ⟨n, if_pos hHere, by omega, Nat.lt_succ_self n⟩
    · have hEarlier : i < n := by
        rcases Nat.lt_succ_iff_lt_or_eq.mp hi with hEarlier | rfl
        · exact hEarlier
        · exact absurd rfl hHere
      obtain ⟨j, hLast, hLow, hHigh⟩ := ih hEarlier
      exact ⟨j, (if_neg hHere).trans hLast, hLow, by omega⟩

/-- One more write. -/
theorem update_stored :
    Function.update (stored place value initial n) (place n) (value n) =
      stored place value initial (n + 1) := by
  funext address
  by_cases hHere : address = place n
  · subst hHere
    rw [Function.update_self]
    simp [stored, lastWrite]
  · rw [Function.update_of_ne hHere]
    simp [stored, lastWrite, Ne.symm hHere]

/-- A write that has not been superseded is still there. -/
theorem stored_of_not_superseded (hi : i < n) (hKept : ¬ Superseded place n i) :
    stored place value initial n (place i) = value i := by
  have hLast : lastWrite place n (place i) = some i := by
    rw [lastWrite_eq_some_iff]
    exact ⟨hi, rfl, fun j hLow hHigh hSame => hKept ⟨j, hLow, hHigh, hSame⟩⟩
  rw [stored, hLast]
  rfl

/-- A write that has been superseded is replaced by a later one. -/
theorem stored_of_superseded (hLost : Superseded place n i) :
    ∃ j, i < j ∧ j < n ∧ stored place value initial n (place i) = value j := by
  obtain ⟨k, hLow, hHigh, hSame⟩ := hLost
  obtain ⟨j, hLast, hkj, hj⟩ : ∃ j, lastWrite place n (place k) = some j ∧ k ≤ j ∧ j < n :=
    exists_lastWrite hHigh
  rw [hSame] at hLast
  refine ⟨j, by omega, hj, ?_⟩
  rw [stored, hLast]
  rfl

end

end DebugCode.Lib
