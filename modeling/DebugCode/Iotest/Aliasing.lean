import Mathlib.Order.Bounds.Basic
import DebugCode.Iotest.Device

/-!
# What the read test finds

A block that has been overwritten by a later one holds the stamp of the later one, and stamps of
different blocks differ in every word.

* `mismatches_stamp`: a stamp that is read back matches only its own block.
* `readTest_spec`: the read test stops at the first block that has been overwritten.
* `main_detects`: it reports a mismatch exactly when the placement is not injective.
-/

namespace DebugCode.Iotest

open Lib

/-! ## Comparing a block -/

theorem compareFrom_eq_nil_iff {offset : Int} {j : Nat} {words : List Int} :
    compareFrom offset j words = [] ↔ ∀ word ∈ words, word = offset := by
  induction words generalizing j with
  | nil => simp [compareFrom]
  | cons word words ih =>
    rw [compareFrom, List.forall_mem_cons]
    by_cases hWord : word = offset
    · rw [if_neg (not_not_intro hWord), ih]
      exact (and_iff_right hWord).symm
    · rw [if_pos hWord]
      exact iff_of_false (List.cons_ne_nil _ _) fun hAll => hWord hAll.1

/-- The lines about a block are about its bytes. -/
theorem mem_compareFrom {offset : Int} {j : Nat} {words : List Int} {m : Message}
    (hm : m ∈ compareFrom offset j words) :
    ∃ byte word, m = .data byte word offset ∧ offset + j ≤ byte ∧
      byte < offset + j + 8 * words.length := by
  induction words generalizing j with
  | nil => cases hm
  | cons word words ih =>
    have hRest : m ∈ compareFrom offset (j + 8) words →
        ∃ byte word', m = .data byte word' offset ∧ offset + j ≤ byte ∧
          byte < offset + j + 8 * (word :: words).length := by
      intro hm
      obtain ⟨byte, word', hData, hLow, hHigh⟩ := ih hm
      refine ⟨byte, word', hData, ?_, ?_⟩
      · push_cast at hLow
        omega
      · push_cast at hHigh
        rw [List.length_cons]
        omega
    rw [compareFrom] at hm
    by_cases hWord : word = offset
    · rw [if_neg (not_not_intro hWord)] at hm
      exact hRest hm
    · rw [if_pos hWord] at hm
      rcases List.mem_cons.mp hm with rfl | hm
      · refine ⟨offset + j, word, rfl, le_rfl, ?_⟩
        rw [List.length_cons]
        omega
      · exact hRest hm

/-- A stamp matches only its own offset. -/
theorem mismatches_stamp {offset written : Int} :
    mismatches offset (stamp written) = [] ↔ written = offset := by
  rw [mismatches, compareFrom_eq_nil_iff, stamp, Vector.toList_replicate]
  constructor
  · intro hAll
    exact hAll written (List.mem_replicate.mpr ⟨by decide, rfl⟩)
  · intro hSame word hWord
    exact (List.eq_of_mem_replicate hWord).trans hSame

theorem mem_mismatches {n : Nat} (hn : n < 2 ^ 51) {block : Block} {m : Message}
    (hm : m ∈ mismatches (offsetOf n) block) :
    ∃ byte word, m = .data byte word (offsetOf n) ∧ byte / 4096 = n := by
  obtain ⟨byte, word, hData, hLow, hHigh⟩ := mem_compareFrom hm
  refine ⟨byte, word, hData, ?_⟩
  rw [offsetOf_of_lt hn] at hLow hHigh
  rw [Vector.length_toList] at hHigh
  omega

theorem offsetOf_injective {m n : Nat} (hm : m < 2 ^ 51) (hn : n < 2 ^ 51)
    (hSame : offsetOf m = offsetOf n) : m = n := by
  rw [offsetOf_of_lt hm, offsetOf_of_lt hn] at hSame
  omega

/-! ## The read test -/

/-- The read test has read `n` blocks, without a complaint. -/
structure ReadTest.Read (n : Nat) (test : ReadTest) : Prop where
  offset : test.offset = offsetOf n
  i : test.i = n
  messages : ∀ m ∈ test.messages, ∃ offset, m = .readFrom offset

/-- The read test has reported block `i`, the first one that has been overwritten. -/
structure ReadTest.Found {κ : Type} (place : Nat → κ) (count i : Nat) (test : ReadTest) : Prop where
  first : IsLeast {i | Superseded place count i} i
  reported : ∃ byte word expected : Int, .data byte word expected ∈ test.messages
  block : ∀ byte word expected : Int, .data byte word expected ∈ test.messages → byte / 4096 = i

section

variable {κ : Type} [DecidableEq κ] {device : Device κ} {count n : Nat} {test : ReadTest}

theorem Device.read_after (hn : n < device.blocks) :
    (device.after count).read (offsetOf n) =
      some (stored device.place (fun i => stamp (offsetOf i)) device.contents count
        (device.place n)) := by
  obtain ⟨hCapacity, hSmall⟩ := Device.lt_blocks_iff.mp hn
  rw [Device.read, blockAt_offsetOf hSmall]
  exact if_pos hCapacity

/-- A block that is read back matches only when it has not been overwritten. -/
theorem mismatches_stored (hCount : count ≤ device.blocks) (hn : n < count) :
    mismatches (offsetOf n) (stored device.place (fun i => stamp (offsetOf i)) device.contents count
      (device.place n)) = [] ↔ ¬ Superseded device.place count n := by
  have hSmall : ∀ j < count, j < 2 ^ 51 :=
    fun j hj => (Device.lt_blocks_iff.mp (Nat.lt_of_lt_of_le hj hCount)).2
  by_cases hLost : Superseded device.place count n
  · obtain ⟨j, hLater, hj, hStored⟩ : ∃ j, n < j ∧ j < count ∧
        stored device.place (fun i => stamp (offsetOf i)) device.contents count (device.place n) =
          stamp (offsetOf j) := stored_of_superseded hLost
    rw [hStored, mismatches_stamp]
    refine iff_of_false (fun hSame => ?_) (not_not_intro hLost)
    have hEq : j = n := offsetOf_injective (hSmall j hj) (hSmall n hn) hSame
    omega
  · rw [stored_of_not_superseded hn hLost, mismatches_stamp]
    exact iff_of_true rfl hLost

theorem ReadTest.Read.next (hRead : test.Read n) (hn : n < 2 ^ 51) : test.next.Read (n + 1) := by
  refine ⟨?_, congrArg Nat.succ hRead.i, ?_⟩
  · show toLong (test.offset + 4096) = offsetOf (n + 1)
    rw [hRead.offset]
    exact offsetOf_succ hn
  · intro m hm
    have hCases : m ∈ test.messages ∨ m = .readFrom test.offset := by
      simp only [ReadTest.next] at hm
      split at hm
      · simpa using hm
      · exact .inl hm
    rcases hCases with hm | rfl
    · exact hRead.messages m hm
    · exact ⟨test.offset, rfl⟩

/-- The read test reads all blocks, or stops at the first one that has been overwritten. -/
theorem readTest_spec (hCount : count ≤ device.blocks) (remaining : Nat)
    (hRemaining : n + remaining = count) (hRead : test.Read n)
    (hKept : ∀ i < n, ¬ Superseded device.place count i) :
    ((∀ i < count, ¬ Superseded device.place count i) ∧
        (readTest (device.after count) remaining test).Read count) ∨
      ∃ i, (readTest (device.after count) remaining test).Found device.place count i := by
  induction remaining generalizing n test with
  | zero =>
    obtain rfl : n = count := hRemaining
    exact .inl ⟨hKept, hRead⟩
  | succ remaining ih =>
    have hn : n < count := by omega
    obtain ⟨-, hSmall⟩ := Device.lt_blocks_iff.mp (Nat.lt_of_lt_of_le hn hCount)
    have hSeek : ¬ test.offset < 0 := by
      rw [hRead.offset, offsetOf_of_lt hSmall]
      omega
    rw [readTest, if_neg hSeek, hRead.offset,
      Device.read_after (Nat.lt_of_lt_of_le hn hCount), Option.elim_some]
    by_cases hLost : Superseded device.place count n
    · -- the test stops here
      have hBad := (mismatches_stored hCount hn).not.mpr (not_not_intro hLost)
      rw [if_pos hBad]
      refine .inr ⟨n, ⟨hLost, fun i hi => ?_⟩, ?_, ?_⟩
      · by_contra hEarlier
        exact hKept i (Nat.lt_of_not_le hEarlier) hi
      · obtain ⟨m, hm⟩ := List.exists_mem_of_ne_nil _ hBad
        obtain ⟨byte, word, rfl, -⟩ := mem_mismatches hSmall hm
        exact ⟨byte, word, offsetOf n, List.mem_append_right _ hm⟩
      · intro byte word expected hm
        rcases List.mem_append.mp hm with hm | hm
        · obtain ⟨offset, hReadFrom⟩ := hRead.messages _ hm
          cases hReadFrom
        · obtain ⟨byte', word', hData, hBlock⟩ := mem_mismatches hSmall hm
          cases hData
          exact hBlock
    · rw [if_neg (not_not_intro ((mismatches_stored hCount hn).mpr hLost))]
      refine ih (by omega) (hRead.next hSmall) ?_
      intro i hi
      rcases Nat.lt_succ_iff_lt_or_eq.mp hi with hEarlier | rfl
      · exact hKept i hEarlier
      · exact hLost

/-! ## The two tests together -/

/-- The program writes as many blocks as it can; then it reports a mismatch exactly when two of
them share a place, and the block it reports is the first one that has been overwritten. When no
two blocks share a place, it reads all of them back and does not complain. -/
theorem main_detects (device : Device κ) :
    ∃ outcome, (∀ fuel, device.blocks < fuel → main fuel device = some outcome) ∧
      outcome.count = device.blocks ∧
      ((∃ byte word expected : Int, .data byte word expected ∈ outcome.readMessages) ↔
        ¬ Set.InjOn device.place (Set.Iio outcome.count)) ∧
      (∀ byte word expected : Int, .data byte word expected ∈ outcome.readMessages →
        ∃ i : Nat, byte / 4096 = i ∧
          IsLeast {i | ∃ j, i < j ∧ j < outcome.count ∧ device.place j = device.place i} i) ∧
      (Set.InjOn device.place (Set.Iio outcome.count) → outcome.verified = outcome.count ∧
        ∀ m ∈ outcome.readMessages, ∃ offset, m = .readFrom offset) := by
  have hStart : (⟨device, 0, 0, []⟩ : WriteTest κ).Wrote device 0 := ⟨rfl, rfl, rfl⟩
  obtain ⟨written, hWrote, hEnds⟩ := writeTest_ends (Nat.zero_le _) hStart
  have hRead : (⟨0, 0, []⟩ : ReadTest).Read 0 :=
    ⟨rfl, rfl, fun m hm => absurd hm List.not_mem_nil⟩
  have hSpec := readTest_spec le_rfl device.blocks (Nat.zero_add _) hRead
    fun i hi => absurd hi (Nat.not_lt_zero i)
  refine ⟨⟨device.blocks, (readTest (device.after device.blocks) device.blocks ⟨0, 0, []⟩).i,
    written.messages, (readTest (device.after device.blocks) device.blocks ⟨0, 0, []⟩).messages⟩,
    ?_, rfl, ?_⟩
  · intro fuel hFuel
    rw [main, hEnds fuel (Nat.lt_of_le_of_lt (Nat.sub_le _ _) hFuel), Option.map_some,
      hWrote.device, hWrote.count]
  · show (_ ↔ ¬ Set.InjOn device.place (Set.Iio device.blocks)) ∧ _ ∧ _
    rw [← exists_superseded_iff]
    rcases hSpec with ⟨hKept, hComplete⟩ | ⟨i, hFound⟩
    · have hSilent : ¬ ∃ byte word expected : Int, .data byte word expected ∈
          (readTest (device.after device.blocks) device.blocks ⟨0, 0, []⟩).messages := by
        rintro ⟨byte, word, expected, hm⟩
        obtain ⟨offset, hReadFrom⟩ := hComplete.messages _ hm
        cases hReadFrom
      refine ⟨iff_of_false hSilent ?_, ?_, fun _ => ⟨hComplete.i, hComplete.messages⟩⟩
      · rintro ⟨i, hi, hLost⟩
        exact hKept i hi hLost
      · intro byte word expected hm
        exact absurd ⟨byte, word, expected, hm⟩ hSilent
    · have hi : i < device.blocks := by
        obtain ⟨j, hLater, hj, -⟩ := hFound.first.1
        omega
      refine ⟨iff_of_true hFound.reported ⟨i, hi, hFound.first.1⟩, ?_, ?_⟩
      · intro byte word expected hm
        exact ⟨i, hFound.block byte word expected hm, hFound.first⟩
      · intro hInj
        exact absurd hInj (exists_superseded_iff.mp ⟨i, hi, hFound.first.1⟩)

end

end DebugCode.Iotest
