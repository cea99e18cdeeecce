import Mathlib.Data.List.Basic

/-!
# The C states of a processor

Leaf 5 of `cpuid` has a field of four bits in `%edx` for each C state, with the number of its sub
states. The loop goes through the fields, but looks at three bits of each.

* `cstates_eq`: the loop ends, and which states it prints.
* `main_right_iff`: those are the states that have a sub state exactly when no field is 8.
-/

namespace DebugCode.CpuCStates

/-- `for (cstate = 0; edx; cstate++, edx >>=4)`, from `cstate` on: the states printed. -/
def cstates : ℕ → ℕ → BitVec 32 → Option (List ℕ)
  | 0, _, _ => none
  | fuel + 1, cstate, edx =>
    if edx = 0 then some []
    else (cstates fuel (cstate + 1) (edx >>> 4)).map
      ((if edx &&& 0x07 ≠ 0 then [cstate] else []) ++ ·)

/-- What `main` prints. -/
inductive Output
  | cannotDetermine
  | states (cstates : List ℕ)

def main (fuel : ℕ) (ecx edx : BitVec 32) : Option Output :=
  if edx = 0 ∨ ecx &&& 1 = 0 then some .cannotDetermine
  else (cstates fuel 0 edx).map .states

/-- The field of a state. -/
def field (edx : BitVec 32) (i : ℕ) : BitVec 4 := (edx >>> (4 * i)).setWidth 4

/-- The states that have a sub state. -/
def supported (edx : BitVec 32) : List ℕ := (List.range 8).filter fun i => field edx i ≠ 0

/-- The states that the loop prints. -/
def shown (edx : BitVec 32) (cstate n : ℕ) : List ℕ :=
  (List.range' cstate n).filter fun i => (edx >>> (4 * i)) &&& 0x07 ≠ 0

/-- Behind the last field that is not zero, nothing is left to print. -/
theorem shown_zero {edx : BitVec 32} {cstate : ℕ} (hZero : edx >>> (4 * cstate) = 0) (n : ℕ) :
    shown edx cstate n = [] := by
  rw [shown, List.filter_eq_nil_iff]
  intro i hi
  obtain ⟨j, rfl⟩ := Nat.exists_eq_add_of_le (List.mem_range'_1.mp hi).1
  rw [Nat.mul_add, BitVec.shiftRight_add, hZero]
  simp

theorem shown_succ (edx : BitVec 32) (cstate n : ℕ) :
    shown edx cstate (n + 1) =
      (if (edx >>> (4 * cstate)) &&& 0x07 ≠ 0 then [cstate] else []) ++
        shown edx (cstate + 1) n := by
  rw [shown, List.range'_succ, List.filter_cons]
  by_cases hField : (edx >>> (4 * cstate)) &&& 0x07 ≠ 0
  · rw [if_pos hField, if_pos (decide_eq_true hField)]
    rfl
  · rw [if_neg hField, if_neg (by rwa [decide_eq_true_iff])]
    rfl

theorem cstates_from (edx : BitVec 32) (n cstate : ℕ) (hEnd : edx >>> (4 * (cstate + n)) = 0)
    {fuel : ℕ} (hFuel : n < fuel) :
    cstates fuel cstate (edx >>> (4 * cstate)) = some (shown edx cstate n) := by
  induction n generalizing cstate fuel with
  | zero =>
    obtain ⟨fuel, rfl⟩ := Nat.exists_eq_add_of_lt hFuel
    exact if_pos hEnd
  | succ n ih =>
    obtain ⟨fuel, rfl⟩ := Nat.exists_eq_add_of_lt hFuel
    rw [cstates]
    split
    · rename_i hZero
      rw [shown_zero hZero]
    · have hNext : edx >>> (4 * cstate) >>> 4 = edx >>> (4 * (cstate + 1)) := by
        rw [← BitVec.shiftRight_add, Nat.mul_succ]
      have hRest : edx >>> (4 * (cstate + 1 + n)) = 0 := by
        rwa [Nat.add_right_comm, Nat.add_assoc]
      rw [hNext, ih (cstate + 1) hRest (by omega), shown_succ]
      rfl

theorem cstates_eq (edx : BitVec 32) {fuel : ℕ} (hFuel : 8 < fuel) :
    cstates fuel 0 edx = some (shown edx 0 8) := by
  have hEnd : edx >>> (4 * (0 + 8)) = 0 := BitVec.ushiftRight_eq_zero (by decide)
  have hLoop := cstates_from edx 8 0 hEnd hFuel
  rwa [Nat.mul_zero, BitVec.ushiftRight_zero] at hLoop

/-- The three bits looked at, in terms of the field. -/
theorem and_seven_iff (edx : BitVec 32) (i : ℕ) :
    (edx >>> (4 * i)) &&& 0x07 ≠ 0 ↔ field edx i &&& 0x07 ≠ 0 := by
  have hMod (v : ℕ) : v &&& 7 = v % 8 := Nat.and_two_pow_sub_one_eq_mod v 3
  have hWord : ((edx >>> (4 * i)) &&& 0x07).toNat = (edx >>> (4 * i)).toNat % 8 := by
    rw [BitVec.toNat_and]
    exact hMod _
  have hField : (field edx i &&& 0x07).toNat = (edx >>> (4 * i)).toNat % 8 := by
    rw [BitVec.toNat_and, field, BitVec.toNat_setWidth]
    exact (hMod _).trans (Nat.mod_mod_of_dvd _ (by decide))
  rw [Ne, Ne, ← BitVec.toNat_inj, ← BitVec.toNat_inj, hWord, hField]
  rfl

theorem field_right_iff (v : BitVec 4) : (v &&& 0x07 ≠ 0 ↔ v ≠ 0) ↔ v ≠ 8 := by
  revert v
  decide

theorem shown_eq_supported_iff (edx : BitVec 32) :
    shown edx 0 8 = supported edx ↔ ∀ i < 8, field edx i ≠ 8 := by
  have hSame (i : ℕ) : (i ∈ shown edx 0 8 ↔ i ∈ supported edx) ↔ i < 8 → field edx i ≠ 8 := by
    rw [← field_right_iff, ← and_seven_iff]
    simp only [shown, supported, ← List.range_eq_range', List.mem_filter, List.mem_range,
      decide_eq_true_iff]
    exact and_congr_right_iff
  constructor
  · intro hShown i
    rw [← hSame, hShown]
  · intro hFields
    rw [shown, supported, ← List.range_eq_range']
    refine List.filter_congr fun i hi => ?_
    rw [decide_eq_decide, and_seven_iff, field_right_iff]
    exact hFields i (List.mem_range.mp hi)

/-- The program ends, and the states printed are those with a sub state exactly when no field
is 8. -/
theorem main_right_iff (ecx edx : BitVec 32) (fuel : ℕ) :
    (∃ out, main (fuel + 9) ecx edx = some out) ∧
      (main (fuel + 9) ecx edx = some (.states (supported edx)) ↔
        edx ≠ 0 ∧ ecx &&& 1 ≠ 0 ∧ ∀ i < 8, field edx i ≠ 8) := by
  rw [← shown_eq_supported_iff, ← and_assoc, ← not_or, main]
  split
  · rename_i hNone
    exact ⟨⟨_, rfl⟩, iff_of_false (by simp) fun h => h.1 hNone⟩
  · rename_i hStates
    rw [cstates_eq edx (by omega), Option.map_some, Option.some.injEq, Output.states.injEq]
    exact ⟨⟨_, rfl⟩, (and_iff_right hStates).symm⟩

end DebugCode.CpuCStates
