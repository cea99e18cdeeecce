import Mathlib.Logic.Function.Iterate
import Mathlib.Tactic.Common

/-!
# While loops

A loop that tests its state and changes it. It need not stop, so it takes fuel, the most
rounds it may make, and has no result when the fuel does not last.

* `exists_whileLoop_iff`: a loop stops in the first of its states in which the test fails.
* `whileLoop_spec`: an invariant, with partial correctness.
* `whileLoop_total`: an invariant that counts the rounds left. The loop then has one result
  for all fuel from that count on.
* `whileLoop_diverges`: an invariant under which the test never fails.
-/

namespace DebugCode.Lib

variable {σ : Type*}

/-- `while (test) body`, for at most `fuel` rounds. -/
def whileLoop (test : σ → Prop) [DecidablePred test] (body : σ → σ) : ℕ → σ → Option σ
  | 0, s => if test s then none else some s
  | fuel + 1, s => if test s then whileLoop test body fuel (body s) else some s

variable {test : σ → Prop} [DecidablePred test] {body : σ → σ}

theorem whileLoop_of_not {s : σ} (hTest : ¬ test s) (fuel : ℕ) :
    whileLoop test body fuel s = some s := by
  cases fuel with
  | zero => exact if_neg hTest
  | succ fuel => exact if_neg hTest

theorem whileLoop_succ {s : σ} (hTest : test s) (fuel : ℕ) :
    whileLoop test body (fuel + 1) s = whileLoop test body fuel (body s) :=
  if_pos hTest

/-- A loop comes to the first of its states in which the test fails. -/
theorem whileLoop_iterate {n fuel : ℕ} {s : σ} (hTest : ∀ k < n, test (body^[k] s))
    (hLast : ¬ test (body^[n] s)) (hFuel : n ≤ fuel) :
    whileLoop test body fuel s = some (body^[n] s) := by
  induction n generalizing s fuel with
  | zero => exact whileLoop_of_not hLast fuel
  | succ n ih =>
    obtain ⟨fuel, rfl⟩ := Nat.exists_eq_add_of_le' (Nat.one_le_of_lt hFuel)
    have hNow : test s := hTest 0 n.succ_pos
    rw [whileLoop_succ hNow]
    exact ih (fun k hLt => hTest (k + 1) (Nat.succ_lt_succ hLt)) hLast
      (Nat.le_of_succ_le_succ hFuel)

/-- Where a loop stops, it has come to the first of its states in which the test fails. -/
theorem exists_iterate_of_whileLoop {fuel : ℕ} {s t : σ}
    (hStop : whileLoop test body fuel s = some t) :
    ∃ n, body^[n] s = t ∧ (∀ k < n, test (body^[k] s)) ∧ ¬ test t := by
  induction fuel generalizing s with
  | zero =>
    by_cases hTest : test s
    · rw [whileLoop, if_pos hTest] at hStop
      cases hStop
    · rw [whileLoop_of_not hTest] at hStop
      cases hStop
      exact ⟨0, rfl, fun k hLt => absurd hLt k.not_lt_zero, hTest⟩
  | succ fuel ih =>
    by_cases hTest : test s
    · rw [whileLoop_succ hTest] at hStop
      obtain ⟨n, hState, hBefore, hLast⟩ := ih hStop
      refine ⟨n + 1, hState, fun k hLt => ?_, hLast⟩
      cases k with
      | zero => exact hTest
      | succ k => exact hBefore k (Nat.lt_of_succ_lt_succ hLt)
    · rw [whileLoop_of_not hTest] at hStop
      cases hStop
      exact ⟨0, rfl, fun k hLt => absurd hLt k.not_lt_zero, hTest⟩

theorem exists_whileLoop_iff {s t : σ} :
    (∃ fuel, whileLoop test body fuel s = some t) ↔
      ∃ n, body^[n] s = t ∧ (∀ k < n, test (body^[k] s)) ∧ ¬ test t := by
  constructor
  · intro ⟨fuel, hStop⟩
    exact exists_iterate_of_whileLoop hStop
  · intro ⟨n, hState, hBefore, hLast⟩
    subst hState
    exact ⟨n, whileLoop_iterate hBefore hLast (Nat.le_refl n)⟩

/-- What every round keeps holds where the loop stops, and there the test fails. -/
theorem whileLoop_spec {I : σ → Prop} (hRound : ∀ s, I s → test s → I (body s)) {fuel : ℕ}
    {s t : σ} (hStart : I s) (hStop : whileLoop test body fuel s = some t) : I t ∧ ¬ test t := by
  obtain ⟨n, rfl, hBefore, hLast⟩ := exists_iterate_of_whileLoop hStop
  have hKept : ∀ k ≤ n, I (body^[k] s) := by
    intro k hk
    induction k with
    | zero => exact hStart
    | succ k ih =>
      rw [Function.iterate_succ_apply']
      exact hRound _ (ih (Nat.le_of_succ_le hk)) (hBefore k hk)
  exact ⟨hKept n (Nat.le_refl n), hLast⟩

/-- A loop with at most `k` rounds left stops, with one result for all fuel from `k` on. -/
theorem whileLoop_total {I : ℕ → σ → Prop} (hLast : ∀ s, I 0 s → ¬ test s)
    (hRound : ∀ k s, I (k + 1) s → test s → I k (body s)) {k : ℕ} {s : σ} (hStart : I k s) :
    ∃ t, ∀ fuel, k ≤ fuel → whileLoop test body fuel s = some t := by
  induction k generalizing s with
  | zero => exact ⟨s, fun fuel _ => whileLoop_of_not (hLast s hStart) fuel⟩
  | succ k ih =>
    by_cases hTest : test s
    · obtain ⟨t, hStop⟩ := ih (hRound k s hStart hTest)
      refine ⟨t, fun fuel hFuel => ?_⟩
      obtain ⟨fuel, rfl⟩ := Nat.exists_eq_add_of_le' (Nat.one_le_of_lt hFuel)
      rw [whileLoop_succ hTest]
      exact hStop fuel (Nat.le_of_succ_le_succ hFuel)
    · exact ⟨s, fun fuel _ => whileLoop_of_not hTest fuel⟩

/-- A loop whose test holds in every state it can come to has no result. -/
theorem whileLoop_diverges {I : σ → Prop} (hTest : ∀ s, I s → test s)
    (hRound : ∀ s, I s → I (body s)) {s : σ} (hStart : I s) (fuel : ℕ) :
    whileLoop test body fuel s = none := by
  induction fuel generalizing s with
  | zero => exact if_pos (hTest s hStart)
  | succ fuel ih =>
    rw [whileLoop_succ (hTest s hStart)]
    exact ih (hRound s hStart)

end DebugCode.Lib
