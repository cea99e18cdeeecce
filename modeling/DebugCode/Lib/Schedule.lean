import Mathlib.Data.List.Basic
import Mathlib.Order.Basic

/-!
# Steps in any order

A system whose parties take turns in an order that nobody controls: `step s a` is the state
after the turn `a`, and a schedule says which turn is the next one. A turn may change nothing.

* `steps_invariant`: what every turn keeps holds after all turns.
* `steps_related`: two systems that stay related turn by turn are related after all turns.
* `exists_done`: where every turn that changes the state leaves less to do, and some party can
  always do something, a schedule in which every party has its turn again and again comes to a
  state in which nothing is left.
-/

namespace DebugCode.Lib

variable {σ τ α β ι : Type*}

/-- The state after some turns. -/
def steps (step : σ → α → σ) (s : σ) (as : List α) : σ := as.foldl step s

/-- The state after the first `n` turns of a schedule. -/
def stateAt (step : σ → α → σ) (s : σ) (schedule : ℕ → α) : ℕ → σ
  | 0 => s
  | n + 1 => step (stateAt step s schedule n) (schedule n)

/-- Every party has its turn again and again. -/
def Fair (party : α → ι) (schedule : ℕ → α) : Prop :=
  ∀ i n, ∃ k, n ≤ k ∧ party (schedule k) = i

section

variable {step : σ → α → σ} {s : σ} {as : List α}

theorem stateAt_eq_steps (schedule : ℕ → α) (n : ℕ) :
    stateAt step s schedule n = steps step s ((List.range n).map schedule) := by
  induction n with
  | zero => rfl
  | succ n ih =>
    rw [stateAt, ih, List.range_succ, List.map_append, steps, steps, List.foldl_append]
    rfl

/-- What every turn keeps holds after all turns. -/
theorem steps_invariant {I : σ → Prop} (hStep : ∀ s a, I s → I (step s a)) (hStart : I s) :
    I (steps step s as) := by
  induction as generalizing s with
  | nil => exact hStart
  | cons a as ih => exact ih (hStep s a hStart)

/-- Two systems that stay related turn by turn are related after all turns. -/
theorem steps_related {step' : τ → β → τ} {R : σ → τ → Prop} {turn : α → β}
    (hStep : ∀ s t a, R s t → R (step s a) (step' t (turn a))) {t : τ} (hStart : R s t) :
    R (steps step s as) (steps step' t (as.map turn)) := by
  induction as generalizing s t with
  | nil => exact hStart
  | cons a as ih => exact ih (hStep s t a hStart)

end

/-! ## Progress -/

section

variable {step : σ → α → σ} {party : α → ι} {left : σ → ℕ} {schedule : ℕ → α}

/-- What is left never grows. -/
theorem left_stateAt_le (hStep : ∀ s a, step s a = s ∨ left (step s a) < left s) (s : σ) (n k : ℕ) :
    left (stateAt step s schedule (n + k)) ≤ left (stateAt step s schedule n) := by
  induction k with
  | zero => exact Nat.le_refl _
  | succ k ih =>
    rw [← Nat.add_assoc, stateAt]
    rcases hStep (stateAt step s schedule (n + k)) (schedule (n + k)) with hSame | hLess
    · rw [hSame]
      exact ih
    · exact Nat.le_trans (Nat.le_of_lt hLess) ih

/-- While nothing gets less the state stays as it is. -/
theorem stateAt_eq_of_left_eq (hStep : ∀ s a, step s a = s ∨ left (step s a) < left s) (s : σ)
    {n k : ℕ}
    (hLeft : left (stateAt step s schedule (n + k)) = left (stateAt step s schedule n)) :
    stateAt step s schedule (n + k) = stateAt step s schedule n := by
  induction k with
  | zero => rfl
  | succ k ih =>
    have hEarlier : left (stateAt step s schedule (n + k)) ≤ left (stateAt step s schedule n) :=
      left_stateAt_le hStep s n k
    rw [← Nat.add_assoc, stateAt] at hLeft ⊢
    rcases hStep (stateAt step s schedule (n + k)) (schedule (n + k)) with hSame | hLess
    · rw [hSame] at hLeft ⊢
      exact ih hLeft
    · omega

/-- The rule for progress: in every state with something left there is a party whose turn does
some of it, and no other turn undoes that. -/
theorem exists_done (hStep : ∀ s a, step s a = s ∨ left (step s a) < left s)
    (hHelp : ∀ s, left s ≠ 0 → ∃ i, ∀ a, party a = i → left (step s a) < left s)
    (hFair : Fair party schedule) (s : σ) :
    ∃ n, ∀ k, left (stateAt step s schedule (n + k)) = 0 := by
  have hZero : ∃ n, left (stateAt step s schedule n) = 0 := by
    -- The induction is on what is left at some point of the schedule.
    have hFrom : ∀ m n, left (stateAt step s schedule n) = m →
        ∃ n, left (stateAt step s schedule n) = 0 := by
      intro m
      induction m using Nat.strongRecOn with
      | ind m ih =>
        intro n hLeft
        by_cases hDone : m = 0
        · exact ⟨n, hLeft.trans hDone⟩
        · obtain ⟨i, hParty⟩ := hHelp (stateAt step s schedule n) (by omega)
          obtain ⟨k, hLater, hTurn⟩ := hFair i n
          obtain ⟨d, rfl⟩ := Nat.exists_eq_add_of_le hLater
          have hLess : left (stateAt step s schedule (n + d + 1)) < m := by
            have hLe : left (stateAt step s schedule (n + d)) ≤ left (stateAt step s schedule n) :=
              left_stateAt_le hStep s n d
            rcases Nat.lt_or_eq_of_le hLe with hAlready | hSame
            · have hNext : left (stateAt step s schedule (n + d + 1)) ≤
                  left (stateAt step s schedule (n + d)) := left_stateAt_le hStep s (n + d) 1
              omega
            · rw [stateAt, stateAt_eq_of_left_eq hStep s hSame, ← hLeft]
              exact hParty _ hTurn
          exact ih _ hLess (n + d + 1) rfl
    exact hFrom _ 0 rfl
  obtain ⟨n, hDone⟩ := hZero
  refine ⟨n, fun k => ?_⟩
  have hLe : left (stateAt step s schedule (n + k)) ≤ left (stateAt step s schedule n) :=
    left_stateAt_le hStep s n k
  omega

end

end DebugCode.Lib
