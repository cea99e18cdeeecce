import DebugCode.ProcessWatcher.Summary
import Mathlib.Data.Int.Order.Basic

/-!
# The order of the summary

`process_info_compare` returns 1 when the first entry has to go behind the second one, and 0
otherwise. `qsort` is promised the sign of a comparison in both directions, and what it does
without that is not specified.

* `processInfoCompare_le_iff`: the entries that may stand in front of others.
* `mergeQsort_sorted`: a `qsort` that asks for no more than that sorts by the 32-bit sums.
* `summaryOrder_iff`: the comparison is what `qsort` is promised only where all totals are
  equal.
-/

namespace DebugCode.ProcessWatcher

/-- What `qsort` is promised of a comparison function on the entries it sorts. -/
structure Consistent {α : Type} (compare : α → α → Int) (entries : List α) : Prop where
  opposite : ∀ a ∈ entries, ∀ b ∈ entries, (compare a b).sign = -(compare b a).sign
  trans : ∀ a ∈ entries, ∀ b ∈ entries, ∀ c ∈ entries,
    compare a b ≤ 0 → compare b c ≤ 0 → compare a c ≤ 0

/-- A `qsort` that keeps its own promise. -/
def Qsort.Conforms (q : Qsort) : Prop :=
  ∀ compare infos, Consistent compare infos →
    (q.sort compare infos).Pairwise fun a b => compare a b ≤ 0

/-- The user and system time of an entry, without wrapping. -/
def ProcessInfo.total (info : ProcessInfo) : Nat := info.totalUsr.toNat + info.totalSys.toNat

/-- What the comparison is for: `qsort` can sort by it, and puts the largest totals first. -/
structure SummaryOrder (infos : List ProcessInfo) : Prop where
  consistent : Consistent processInfoCompare infos
  first_iff : ∀ a ∈ infos, ∀ b ∈ infos, processInfoCompare a b < 0 ↔ b.total < a.total
  sorted : ∀ q : Qsort, q.Conforms →
    (q.sort processInfoCompare infos).Pairwise fun a b => b.total ≤ a.total

/-! ## What is compared -/

theorem processInfoCompare_nonneg (a b : ProcessInfo) : 0 ≤ processInfoCompare a b := by
  rw [processInfoCompare]
  split_ifs
  · exact Int.one_nonneg
  · exact le_rfl

theorem processInfoCompare_le_iff (a b : ProcessInfo) :
    processInfoCompare a b ≤ 0 ↔ b.totalUsr + b.totalSys ≤ a.totalUsr + a.totalSys := by
  rw [processInfoCompare]
  split_ifs with hLess
  · exact iff_of_false (by decide) (UInt32.not_le.mpr hLess)
  · exact iff_of_true le_rfl (UInt32.not_lt.mp hLess)

theorem processInfoCompare_le_trans {a b c : ProcessInfo} (hFirst : processInfoCompare a b ≤ 0)
    (hSecond : processInfoCompare b c ≤ 0) : processInfoCompare a c ≤ 0 := by
  rw [processInfoCompare_le_iff] at *
  exact UInt32.le_trans hSecond hFirst

/-- Merge sort asks only which entry may come first, and gets the order of the sums. -/
theorem mergeQsort_sorted (infos : List ProcessInfo) :
    (mergeQsort.sort processInfoCompare infos).Pairwise fun a b =>
      b.totalUsr + b.totalSys ≤ a.totalUsr + a.totalSys := by
  have hSorted : (infos.mergeSort fun a b => decide (processInfoCompare a b ≤ 0)).Pairwise
      fun a b => decide (processInfoCompare a b ≤ 0) = true := by
    apply List.pairwise_mergeSort
    · intro a b c hFirst hSecond
      exact decide_eq_true
        (processInfoCompare_le_trans (of_decide_eq_true hFirst) (of_decide_eq_true hSecond))
    · intro a b
      simp only [processInfoCompare_le_iff, Bool.or_eq_true, decide_eq_true_eq]
      exact UInt32.le_total _ _
  apply hSorted.imp
  intro a b hLe
  exact (processInfoCompare_le_iff a b).mp (of_decide_eq_true hLe)

/-! ## When it is an order -/

theorem sum_eq_of_total_eq {a b : ProcessInfo} (hSame : a.total = b.total) :
    a.totalUsr + a.totalSys = b.totalUsr + b.totalSys := by
  apply UInt32.toNat.inj
  rw [UInt32.toNat_add, UInt32.toNat_add]
  exact congrArg (· % 2 ^ 32) hSame

theorem processInfoCompare_of_total_eq {a b : ProcessInfo} (hSame : a.total = b.total) :
    processInfoCompare a b = 0 := by
  rw [processInfoCompare, sum_eq_of_total_eq hSame, if_neg (UInt32.lt_irrefl _)]

/-- The comparison does what the summary needs of it exactly when there is nothing to sort. -/
theorem summaryOrder_iff (infos : List ProcessInfo) :
    SummaryOrder infos ↔ ∀ a ∈ infos, ∀ b ∈ infos, a.total = b.total := by
  constructor
  · intro hOrder a ha b hb
    have hNever : ∀ x ∈ infos, ∀ y ∈ infos, ¬ y.total < x.total := by
      intro x hx y hy hLess
      have hBefore := (hOrder.first_iff x hx y hy).mpr hLess
      exact absurd (processInfoCompare_nonneg x y) (not_le.mpr hBefore)
    exact le_antisymm (not_lt.mp (hNever a ha b hb)) (not_lt.mp (hNever b hb a ha))
  · intro hSame
    have hZero : ∀ a ∈ infos, ∀ b ∈ infos, processInfoCompare a b = 0 := fun a ha b hb =>
      processInfoCompare_of_total_eq (hSame a ha b hb)
    refine ⟨⟨?_, ?_⟩, ?_, ?_⟩
    · intro a ha b hb
      rw [hZero a ha b hb, hZero b hb a ha]
      rfl
    · intro a _ b _ c _ hFirst hSecond
      exact processInfoCompare_le_trans hFirst hSecond
    · intro a ha b hb
      rw [hZero a ha b hb, hSame a ha b hb]
      exact iff_of_false (lt_irrefl _) (lt_irrefl _)
    · intro q _
      apply List.pairwise_of_forall_mem_list
      intro a ha b hb
      rw [(q.perm _ _).mem_iff] at ha hb
      exact (hSame b hb a ha).le

/-- An entry with the given user time and nothing else. -/
def entry (usr : UInt32) : ProcessInfo := ⟨1, 0, 0, 0, 0, usr, 0, true, []⟩

/-- Two entries with the totals 1 and 2: the larger one is not told to come first. -/
theorem compare_not_opposite : ¬ SummaryOrder [entry 1, entry 2] := by
  intro hOrder
  have hSign := hOrder.consistent.opposite (entry 1) (by simp) (entry 2) (by simp)
  exact absurd hSign (by decide)

end DebugCode.ProcessWatcher
