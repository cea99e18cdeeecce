import Mathlib.Algebra.Order.Group.Nat
import Mathlib.Data.Nat.Find
import Mathlib.Tactic.Common

/-!
# Programs that read memory

A program that reads cells of a memory has a result and the list of cells it reads, and what
it reads next may depend on what it has read. Comparisons joined by `&&` stop at the first
that fails, and a `for` loop at the first round that leaves it.

* `run_congr`: the result depends on nothing but the cells that are read.
* `run_compare`, `mem_of_mem_reads_compare`: a row of comparisons.
* `run_forLoop_eq_some_iff`, `run_forLoop_eq_none_iff`: the result of a loop is that of the
  first round that has one.
* `mem_reads_forLoop_iff`: a loop reads what its rounds up to that one read.
-/

namespace DebugCode.Lib

/-- A program over a memory with cells `ι` that hold values `κ`. -/
inductive Reader (ι κ α : Type) : Type
  | done (result : α)
  | read (cell : ι) (next : κ → Reader ι κ α)

namespace Reader

variable {ι κ α β : Type} (memory : ι → κ)

/-- The result. -/
def run : Reader ι κ α → α
  | done result => result
  | read cell next => (next (memory cell)).run

/-- The cells that are read, in order. -/
def reads : Reader ι κ α → List ι
  | done _ => []
  | read cell next => cell :: (next (memory cell)).reads

def bind : Reader ι κ α → (α → Reader ι κ β) → Reader ι κ β
  | done result, f => f result
  | read cell next, f => read cell fun v => (next v).bind f

@[simp] theorem run_done (result : α) : (done result : Reader ι κ α).run memory = result := rfl

@[simp] theorem reads_done (result : α) : (done result : Reader ι κ α).reads memory = [] := rfl

@[simp] theorem run_read (cell : ι) (next : κ → Reader ι κ α) :
    (read cell next).run memory = (next (memory cell)).run memory := rfl

@[simp] theorem reads_read (cell : ι) (next : κ → Reader ι κ α) :
    (read cell next).reads memory = cell :: (next (memory cell)).reads memory := rfl

@[simp] theorem run_bind (x : Reader ι κ α) (f : α → Reader ι κ β) :
    (x.bind f).run memory = (f (x.run memory)).run memory := by
  induction x with
  | done result => rfl
  | read cell next ih => exact ih (memory cell)

@[simp] theorem reads_bind (x : Reader ι κ α) (f : α → Reader ι κ β) :
    (x.bind f).reads memory = x.reads memory ++ (f (x.run memory)).reads memory := by
  induction x with
  | done result => rfl
  | read cell next ih => exact congrArg (List.cons cell) (ih (memory cell))

variable {memory}

/-- Memories that agree on the cells that are read cannot be told apart. -/
theorem run_congr {x : Reader ι κ α} {memory' : ι → κ}
    (hSame : ∀ cell ∈ x.reads memory, memory cell = memory' cell) :
    x.run memory = x.run memory' ∧ x.reads memory = x.reads memory' := by
  induction x with
  | done result => exact ⟨rfl, rfl⟩
  | read cell next ih =>
    have hCell := hSame cell List.mem_cons_self
    have hRest := ih (memory cell) fun c hc => hSame c (List.mem_cons_of_mem _ hc)
    simp only [run_read, reads_read, ← hCell, hRest, and_self]

/-! ## Comparisons -/

section

variable [DecidableEq κ]

/-- `a == v && b == w && ...` -/
def compare : List (ι × κ) → Reader ι κ Bool
  | [] => done true
  | (cell, v) :: tests => read cell fun w => if w = v then compare tests else done false

theorem run_compare (tests : List (ι × κ)) :
    (compare tests).run memory = true ↔ ∀ t ∈ tests, memory t.1 = t.2 := by
  induction tests with
  | nil => simp [compare]
  | cons t tests ih =>
    rw [compare, run_read, List.forall_mem_cons, ← ih]
    split_ifs with hTest
    · exact (and_iff_right hTest).symm
    · exact iff_of_false (by simp) fun h => hTest h.1

/-- When all hold, all cells are read. -/
theorem mem_reads_compare {tests : List (ι × κ)} (h : (compare tests).run memory = true)
    {t : ι × κ} (ht : t ∈ tests) : t.1 ∈ (compare tests).reads memory := by
  induction tests with
  | nil => cases ht
  | cons u tests ih =>
    have hAll := (run_compare (u :: tests)).mp h
    rw [List.forall_mem_cons, ← run_compare] at hAll
    obtain ⟨hHead, hTail⟩ := hAll
    rw [compare, reads_read, if_pos hHead]
    rcases List.mem_cons.mp ht with rfl | ht
    · exact List.mem_cons_self
    · exact List.mem_cons_of_mem _ (ih hTail ht)

theorem mem_of_mem_reads_compare {tests : List (ι × κ)} {cell : ι}
    (h : cell ∈ (compare tests).reads memory) : ∃ t ∈ tests, t.1 = cell := by
  induction tests with
  | nil => cases h
  | cons t tests ih =>
    rw [compare, reads_read] at h
    rcases List.mem_cons.mp h with rfl | h
    · exact ⟨t, List.mem_cons_self, rfl⟩
    · split_ifs at h
      · obtain ⟨u, hu, hCell⟩ := ih h
        exact ⟨u, List.mem_cons_of_mem _ hu, hCell⟩
      · cases h

end

/-! ## Loops -/

/-- The rounds of a loop, of which one may leave it with a result. -/
def tryEach (body : ℕ → Reader ι κ (Option β)) : List ℕ → Reader ι κ (Option β)
  | [] => done none
  | i :: is => (body i).bind fun result =>
    match result with
    | none => tryEach body is
    | some b => done (some b)

/-- The values of `i` in `for (i = 0; i < bound; i += step)`. -/
def rounds (bound step : ℕ) : List ℕ :=
  (List.range ((bound + step - 1) / step)).map fun k => k * step

/-- `for (i = 0; i < bound; i += step) body` -/
def forLoop (bound step : ℕ) (body : ℕ → Reader ι κ (Option β)) : Reader ι κ (Option β) :=
  tryEach body (rounds bound step)

theorem run_tryEach (body : ℕ → Reader ι κ (Option β)) (is : List ℕ) :
    (tryEach body is).run memory = is.findSome? fun i => (body i).run memory := by
  induction is with
  | nil => rfl
  | cons i is ih =>
    rw [tryEach, run_bind, List.findSome?_cons]
    cases (body i).run memory with
    | none => exact ih
    | some b => rfl

theorem mem_reads_tryEach_iff {body : ℕ → Reader ι κ (Option β)} {is : List ℕ} {cell : ι} :
    cell ∈ (tryEach body is).reads memory ↔ ∃ before i after, is = before ++ i :: after ∧
      (∀ j ∈ before, (body j).run memory = none) ∧ cell ∈ (body i).reads memory := by
  induction is with
  | nil => simp [tryEach]
  | cons i is ih =>
    rw [tryEach, reads_bind, List.mem_append]
    constructor
    · intro h
      rcases h with hHere | hLater
      · exact ⟨[], i, is, rfl, by simp, hHere⟩
      · cases hRun : (body i).run memory with
        | some b =>
          rw [hRun] at hLater
          cases hLater
        | none =>
          rw [hRun] at hLater
          obtain ⟨before, k, after, rfl, hNone, hCell⟩ := ih.mp hLater
          refine ⟨i :: before, k, after, rfl, ?_, hCell⟩
          rw [List.forall_mem_cons]
          exact ⟨hRun, hNone⟩
    · rintro ⟨before, k, after, hSplit, hNone, hCell⟩
      cases before with
      | nil =>
        obtain ⟨rfl, -⟩ := List.cons.inj hSplit
        exact Or.inl hCell
      | cons j before =>
        obtain ⟨rfl, rfl⟩ := List.cons.inj hSplit
        rw [List.forall_mem_cons] at hNone
        refine Or.inr ?_
        rw [hNone.1]
        exact ih.mpr ⟨before, k, after, rfl, hNone.2, hCell⟩

theorem mem_rounds_iff {bound step i : ℕ} (hStep : 0 < step) :
    i ∈ rounds bound step ↔ step ∣ i ∧ i < bound := by
  rw [rounds, List.mem_map]
  constructor
  · rintro ⟨k, hk, rfl⟩
    rw [List.mem_range, Nat.lt_iff_add_one_le, Nat.le_div_iff_mul_le hStep, Nat.add_mul] at hk
    exact ⟨Nat.dvd_mul_left step k, by omega⟩
  · rintro ⟨⟨k, rfl⟩, hLt⟩
    refine ⟨k, ?_, Nat.mul_comm k step⟩
    rw [List.mem_range, Nat.lt_iff_add_one_le, Nat.le_div_iff_mul_le hStep, Nat.add_mul,
      Nat.mul_comm k step]
    omega

theorem rounds_sorted {step : ℕ} (hStep : 0 < step) (bound : ℕ) :
    (rounds bound step).Pairwise (· < ·) := by
  rw [rounds, List.pairwise_map]
  apply List.pairwise_lt_range.imp
  intro a b hLt
  exact Nat.mul_lt_mul_of_pos_right hLt hStep

/-- In a sorted list, what stands in front of a number is what is less than it. -/
theorem exists_split_iff {is : List ℕ} (hSorted : is.Pairwise (· < ·)) {i : ℕ} {P : ℕ → Prop} :
    (∃ before after, is = before ++ i :: after ∧ ∀ j ∈ before, P j) ↔
      i ∈ is ∧ ∀ j ∈ is, j < i → P j := by
  constructor
  · rintro ⟨before, after, rfl, hBefore⟩
    refine ⟨by simp, ?_⟩
    intro j hj hLt
    rcases List.mem_append.mp hj with hFront | hBack
    · exact hBefore j hFront
    · have hBehind := (List.pairwise_append.mp hSorted).2.1
      rcases List.mem_cons.mp hBack with rfl | hAfter
      · omega
      · have hGt := (List.pairwise_cons.mp hBehind).1 j hAfter
        omega
  · rintro ⟨hMem, hLess⟩
    obtain ⟨before, after, rfl⟩ := List.append_of_mem hMem
    refine ⟨before, after, rfl, ?_⟩
    intro j hj
    have hLt := (List.pairwise_append.mp hSorted).2.2 j hj i List.mem_cons_self
    exact hLess j (List.mem_append_left _ hj) hLt

/-- Among the rounds with a property there is a first. -/
theorem exists_first {P : ℕ → Prop} {i : ℕ} (h : P i) : ∃ j ≤ i, P j ∧ ∀ k < j, ¬ P k := by
  classical
  have hSome : ∃ j, P j := ⟨i, h⟩
  exact ⟨Nat.find hSome, Nat.find_min' hSome h, Nat.find_spec hSome, fun _ => Nat.find_min hSome⟩

section

variable {bound step : ℕ} (hStep : 0 < step) {body : ℕ → Reader ι κ (Option β)}

include hStep

theorem run_forLoop_eq_none_iff : (forLoop bound step body).run memory = none ↔
    ∀ i, step ∣ i → i < bound → (body i).run memory = none := by
  rw [forLoop, run_tryEach, List.findSome?_eq_none_iff]
  simp only [mem_rounds_iff hStep, and_imp]

/-- What stands in front of a round are the rounds for less. -/
theorem exists_split_rounds_iff {i : ℕ} {P : ℕ → Prop} :
    (∃ before after, rounds bound step = before ++ i :: after ∧ ∀ j ∈ before, P j) ↔
      step ∣ i ∧ i < bound ∧ ∀ j, step ∣ j → j < i → P j := by
  rw [exists_split_iff (rounds_sorted hStep bound), mem_rounds_iff hStep, and_assoc]
  constructor
  · rintro ⟨hDvd, hLt, hLess⟩
    refine ⟨hDvd, hLt, ?_⟩
    intro j hj hji
    exact hLess j ((mem_rounds_iff hStep).mpr ⟨hj, hji.trans hLt⟩) hji
  · rintro ⟨hDvd, hLt, hLess⟩
    refine ⟨hDvd, hLt, ?_⟩
    intro j hj hji
    exact hLess j ((mem_rounds_iff hStep).mp hj).1 hji

theorem run_forLoop_eq_some_iff {b : β} : (forLoop bound step body).run memory = some b ↔
    ∃ i, step ∣ i ∧ i < bound ∧ (∀ j, step ∣ j → j < i → (body j).run memory = none) ∧
      (body i).run memory = some b := by
  rw [forLoop, run_tryEach, List.findSome?_eq_some_iff]
  constructor
  · rintro ⟨before, i, after, hSplit, hSome, hNone⟩
    obtain ⟨hDvd, hLt, hLess⟩ := (exists_split_rounds_iff hStep).mp ⟨before, after, hSplit, hNone⟩
    exact ⟨i, hDvd, hLt, hLess, hSome⟩
  · rintro ⟨i, hDvd, hLt, hLess, hSome⟩
    obtain ⟨before, after, hSplit, hNone⟩ :=
      (exists_split_rounds_iff hStep).mpr ⟨hDvd, hLt, hLess⟩
    exact ⟨before, i, after, hSplit, hSome, hNone⟩

theorem mem_reads_forLoop_iff {cell : ι} : cell ∈ (forLoop bound step body).reads memory ↔
    ∃ i, step ∣ i ∧ i < bound ∧ (∀ j, step ∣ j → j < i → (body j).run memory = none) ∧
      cell ∈ (body i).reads memory := by
  rw [forLoop, mem_reads_tryEach_iff]
  constructor
  · rintro ⟨before, i, after, hSplit, hNone, hCell⟩
    obtain ⟨hDvd, hLt, hLess⟩ := (exists_split_rounds_iff hStep).mp ⟨before, after, hSplit, hNone⟩
    exact ⟨i, hDvd, hLt, hLess, hCell⟩
  · rintro ⟨i, hDvd, hLt, hLess, hCell⟩
    obtain ⟨before, after, hSplit, hNone⟩ :=
      (exists_split_rounds_iff hStep).mpr ⟨hDvd, hLt, hLess⟩
    exact ⟨before, i, after, hSplit, hNone, hCell⟩

end

end Reader

end DebugCode.Lib
