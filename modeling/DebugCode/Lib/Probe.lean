import Mathlib.Data.Finset.Card
import Mathlib.Data.Finset.Lattice.Lemmas
import Mathlib.Data.Nat.Find
import Mathlib.Tactic.Common

/-!
# Open addressing with linear probing

A table of `n` slots, each free or holding a key. A key is looked for from its home slot
on, one slot after the other and cyclically, up to the first slot that holds it or is
free, and is written there. Keys are never removed.

* `probe_eq_some_iff`: the loop stops at the first such slot on its cyclic path, if any.
* `WellProbed`: every key is reached from its home slot over occupied slots, and no key is
  held twice. `WellProbed.insert` is the step lemma.
* `insertAll_preserves`: the run lemma. A run keeps the invariant, and every key keeps the
  slot it got.
* `insertAll_total`: a run with at most `n` distinct keys gets through.
* `insertAll_congr`: what lies behind the table has no influence on a run.
-/

namespace DebugCode.Lib.Probe

/-- The slots of a table; only those below its size are used. -/
abbrev Slots (κ : Type) : Type := Nat → Option κ

/-- `index++; if (index >= n) index = 0;` -/
def next (n i : Nat) : Nat := if n ≤ i + 1 then 0 else i + 1

theorem next_mod (hn : 0 < n) (a : Nat) : next n (a % n) = (a + 1) % n := by
  have hlt := Nat.mod_lt a hn
  rw [← Nat.mod_add_mod]
  unfold next
  split
  · have he : a % n = n - 1 := by omega
    rw [he, Nat.sub_add_cancel hn, Nat.mod_self]
  · exact (Nat.mod_eq_of_lt (show a % n + 1 < n by omega)).symm

section

variable {κ : Type} {n : Nat} {slots : Slots κ}

/-- The loop stops at a slot that holds the key or is free. -/
def Stops (slots : Slots κ) (k : κ) (i : Nat) : Prop := slots i = some k ∨ slots i = none

/-! ## The invariant -/

/-- Every key is reached from its home slot over occupied slots, and is held once. -/
structure WellProbed (n : Nat) (hash : κ → Nat) (slots : Slots κ) : Prop where
  path : ∀ i < n, ∀ k, slots i = some k →
    ∃ d, i = (hash k + d) % n ∧ ∀ e < d, slots ((hash k + e) % n) ≠ none
  unique : ∀ i < n, ∀ j < n, ∀ k, slots i = some k → slots j = some k → i = j

/-- The keys held below `n` are those of `S`. -/
def Holds (n : Nat) (slots : Slots κ) (S : Finset κ) : Prop :=
  ∀ k, k ∈ S ↔ ∃ i < n, slots i = some k

/-- Every occupied slot keeps its key. -/
def Extends (slots slots' : Slots κ) : Prop := ∀ i, slots i ≠ none → slots' i = slots i

theorem Extends.refl (slots : Slots κ) : Extends slots slots := fun _ _ => rfl

theorem Extends.trans {a b c : Slots κ} (hab : Extends a b) (hbc : Extends b c) :
    Extends a c := by
  intro i hi
  have hb := hab i hi
  rw [hbc i (by rwa [hb]), hb]

theorem Extends.some {a b : Slots κ} (h : Extends a b) {i : Nat} {k : κ} (hi : a i = some k) :
    b i = some k := by
  rw [h i (by simp [hi]), hi]

variable {hash : κ → Nat} {S : Finset κ} {k : κ} {i : Nat}

theorem wellProbed_of_free (hFree : ∀ i < n, slots i = none) : WellProbed n hash slots where
  path i hi k h := by
    rw [hFree i hi] at h
    cases h
  unique i hi _ _ k h := by
    rw [hFree i hi] at h
    cases h

theorem holds_of_free (hFree : ∀ i < n, slots i = none) : Holds n slots ∅ := by
  intro k
  constructor
  · intro h
    simp at h
  · rintro ⟨i, hi, h⟩
    rw [hFree i hi] at h
    cases h

theorem update_extends (hStop : Stops slots k i) :
    Extends slots (Function.update slots i (some k)) := by
  intro j hj
  by_cases he : j = i
  · subst he
    rcases hStop with h | h
    · rw [Function.update_self, h]
    · exact absurd h hj
  · rw [Function.update_of_ne he]

/-! ## Occupancy -/

/-- As many slots are occupied as keys are held. -/
theorem WellProbed.card_occupied (hw : WellProbed n hash slots) (hs : Holds n slots S) :
    ((Finset.range n).filter fun i => slots i ≠ none).card = S.card := by
  have hKey : ∀ i ∈ (Finset.range n).filter (fun i => slots i ≠ none), ∃ k, slots i = some k :=
    fun i hi => Option.ne_none_iff_exists'.mp (Finset.mem_filter.mp hi).2
  choose key hKey using hKey
  refine Finset.card_bij key ?_ ?_ ?_
  · intro i hi
    have hin := Finset.mem_range.mp (Finset.mem_filter.mp hi).1
    exact (hs _).mpr ⟨i, hin, hKey i hi⟩
  · intro i hi j hj he
    have hin := Finset.mem_range.mp (Finset.mem_filter.mp hi).1
    have hjn := Finset.mem_range.mp (Finset.mem_filter.mp hj).1
    have hi' := hKey i hi
    rw [he] at hi'
    exact hw.unique i hin j hjn _ hi' (hKey j hj)
  · intro k hk
    obtain ⟨i, hin, hi⟩ := (hs k).mp hk
    have hMem : i ∈ (Finset.range n).filter fun i => slots i ≠ none := by simp [hin, hi]
    refine ⟨i, hMem, ?_⟩
    have hOwn := hKey i hMem
    rw [hi] at hOwn
    exact (Option.some.inj hOwn).symm

theorem WellProbed.card_le (hw : WellProbed n hash slots) (hs : Holds n slots S) :
    S.card ≤ n := by
  rw [← hw.card_occupied hs]
  exact (Finset.card_filter_le _ _).trans_eq (Finset.card_range n)

/-- All slots are occupied exactly when as many keys are held as there are slots. -/
theorem WellProbed.full_iff (hw : WellProbed n hash slots) (hs : Holds n slots S) :
    S.card = n ↔ ∀ i < n, slots i ≠ none := by
  rw [← hw.card_occupied hs]
  constructor
  · intro hCard i hi
    have hAll : (Finset.range n).filter (fun i => slots i ≠ none) = Finset.range n :=
      Finset.eq_of_subset_of_card_le (Finset.filter_subset _ _) (by rw [hCard, Finset.card_range])
    have hMem : i ∈ (Finset.range n).filter fun i => slots i ≠ none := by
      rw [hAll]
      exact Finset.mem_range.mpr hi
    exact (Finset.mem_filter.mp hMem).2
  · intro hAll
    rw [Finset.filter_true_of_mem fun i hi => hAll i (Finset.mem_range.mp hi), Finset.card_range]

/-- The probe stops exactly when the key is held or a slot is free. -/
theorem WellProbed.stop_iff (hw : WellProbed n hash slots) (hs : Holds n slots S) :
    (∃ i < n, Stops slots k i) ↔ k ∈ S ∨ S.card < n := by
  have hLe := hw.card_le hs
  constructor
  · rintro ⟨i, hi, hKey | hFree⟩
    · exact Or.inl ((hs k).mpr ⟨i, hi, hKey⟩)
    · refine Or.inr (lt_of_le_of_ne hLe fun hCard => ?_)
      exact (hw.full_iff hs).mp hCard i hi hFree
  · rintro (hk | hlt)
    · obtain ⟨i, hi, hKey⟩ := (hs k).mp hk
      exact ⟨i, hi, Or.inl hKey⟩
    · have hNotFull : ¬ ∀ i < n, slots i ≠ none := fun hAll =>
        absurd ((hw.full_iff hs).mpr hAll) (by omega)
      push Not at hNotFull
      obtain ⟨i, hi, hFree⟩ := hNotFull
      exact ⟨i, hi, Or.inr hFree⟩

end

section

variable {κ : Type} [DecidableEq κ] {n : Nat} {slots : Slots κ}

/-! ## The probe loop -/

instance (slots : Slots κ) (k : κ) (i : Nat) : Decidable (Stops slots k i) :=
  inferInstanceAs (Decidable (_ ∨ _))

/-- The probe loop from slot `i` on; `none` when it has not stopped after `fuel` tests. -/
def probe (n : Nat) (slots : Slots κ) (k : κ) : Nat → Nat → Option Nat
  | 0, _ => none
  | fuel + 1, i => if Stops slots k i then some i else probe n slots k fuel (next n i)

def insertAll (n : Nat) (hash : κ → Nat) (fuel : Nat) : List κ → Slots κ → Option (Slots κ)
  | [], slots => some slots
  | k :: ks, slots => (probe n slots k fuel (hash k)).bind fun i =>
      insertAll n hash fuel ks (Function.update slots i (some k))

/-- The loop stops at the first slot of its cyclic path that holds the key or is free. -/
theorem probe_eq_some_iff (hn : 0 < n) (k : κ) (fuel a i : Nat) :
    probe n slots k fuel (a % n) = some i ↔
      ∃ d < fuel, i = (a + d) % n ∧ Stops slots k i ∧
        ∀ e < d, ¬ Stops slots k ((a + e) % n) := by
  induction fuel generalizing a with
  | zero => simp [probe]
  | succ fuel ih =>
    rw [probe]
    split
    · rename_i hStop
      constructor
      · rintro ⟨⟩
        exact ⟨0, Nat.succ_pos _, rfl, hStop, fun e he => absurd he (Nat.not_lt_zero e)⟩
      · rintro ⟨d, -, rfl, -, hBefore⟩
        cases d with
        | zero => rfl
        | succ d => exact absurd hStop (hBefore 0 (Nat.succ_pos d))
    · rename_i hPass
      rw [next_mod hn, ih]
      constructor
      · rintro ⟨d, hd, rfl, hStop, hBefore⟩
        refine ⟨d + 1, by omega, by rw [Nat.add_right_comm, Nat.add_assoc], hStop, ?_⟩
        intro e he
        cases e with
        | zero => exact hPass
        | succ e =>
          have := hBefore e (by omega)
          rwa [Nat.add_right_comm, Nat.add_assoc] at this
      · rintro ⟨d, hd, rfl, hStop, hBefore⟩
        cases d with
        | zero => exact absurd hStop hPass
        | succ d =>
          refine ⟨d, by omega, by rw [Nat.add_right_comm, Nat.add_assoc], hStop, ?_⟩
          intro e he
          have := hBefore (e + 1) (by omega)
          rwa [Nat.add_right_comm, Nat.add_assoc]

/-- A stop anywhere in the table is found within `n` tests. -/
theorem probe_isSome_of_stop (hn : 0 < n) {k : κ} {fuel a i : Nat} (hFuel : n ≤ fuel)
    (hi : i < n) (hStop : Stops slots k i) : ∃ j, probe n slots k fuel (a % n) = some j := by
  classical
  have hExists : ∃ d, Stops slots k ((a + d) % n) := by
    refine ⟨(i + (n - a % n)), ?_⟩
    have hSlot : (a + (i + (n - a % n))) % n = i := by
      have hMod := Nat.mod_lt a hn
      have hDiv := Nat.mod_add_div a n
      have he : a + (i + (n - a % n)) = i + n * (a / n + 1) := by
        rw [Nat.mul_add, Nat.mul_one]
        omega
      rw [he, Nat.add_mul_mod_self_left, Nat.mod_eq_of_lt hi]
    rwa [hSlot]
  have hFirst := Nat.find_spec hExists
  have hBefore : ∀ e < Nat.find hExists, ¬ Stops slots k ((a + e) % n) :=
    fun e he => Nat.find_min hExists he
  have hShort : Nat.find hExists < n := by
    by_contra hLong
    have hEarlier := hBefore (Nat.find hExists % n)
      ((Nat.mod_lt _ hn).trans_le (Nat.le_of_not_lt hLong))
    rw [Nat.add_mod_mod] at hEarlier
    exact hEarlier hFirst
  exact ⟨_, (probe_eq_some_iff hn k fuel a _).mpr
    ⟨Nat.find hExists, by omega, rfl, hFirst, hBefore⟩⟩

theorem probe_stops (hn : 0 < n) {k : κ} {fuel a i : Nat}
    (h : probe n slots k fuel (a % n) = some i) : i < n ∧ Stops slots k i := by
  obtain ⟨d, -, rfl, hStop, -⟩ := (probe_eq_some_iff hn k fuel a i).mp h
  exact ⟨Nat.mod_lt _ hn, hStop⟩

/-! ## Insertion -/

variable {hash : κ → Nat} {S : Finset κ} {k : κ} {i : Nat}

/-- The step lemma: writing the key where its probe stopped keeps the invariant. -/
theorem WellProbed.insert (hw : WellProbed n hash slots) (hn : 0 < n) (hHash : hash k < n)
    {fuel : Nat} (hp : probe n slots k fuel (hash k) = some i) :
    WellProbed n hash (Function.update slots i (some k)) := by
  rw [← Nat.mod_eq_of_lt hHash] at hp
  obtain ⟨e, -, he, hStop, hBefore⟩ := (probe_eq_some_iff hn k fuel (hash k) i).mp hp
  have hin : i < n := he ▸ Nat.mod_lt _ hn
  have hExt := update_extends hStop
  constructor
  · intro j hj q hq
    by_cases hji : j = i
    · subst hji
      rw [Function.update_self] at hq
      cases hq
      refine ⟨e, he, ?_⟩
      intro e' he' hNone
      refine hBefore e' he' (Or.inr ?_)
      by_contra hOccupied
      rw [hExt _ hOccupied] at hNone
      exact hOccupied hNone
    · rw [Function.update_of_ne hji] at hq
      obtain ⟨d, hd, hOccupied⟩ := hw.path j hj q hq
      refine ⟨d, hd, fun e' he' => ?_⟩
      rw [hExt _ (hOccupied e' he')]
      exact hOccupied e' he'
  · -- the key is held nowhere else: its probe would have stopped there
    have hNew : ∀ j < n, slots j = some k → j = i := by
      intro j hj hq
      obtain ⟨d, hd, hOccupied⟩ := hw.path j hj k hq
      rcases Nat.lt_trichotomy e d with hlt | rfl | hgt
      · rcases hStop with hKey | hFree
        · exact hw.unique j hj i hin k hq hKey
        · exact absurd (he ▸ hFree) (hOccupied e hlt)
      · rw [hd, he]
      · exact absurd (Or.inl (hd ▸ hq)) (hBefore d hgt)
    intro a ha b hb q hqa hqb
    by_cases hai : a = i
    · subst hai
      rw [Function.update_self] at hqa
      cases hqa
      by_cases hbi : b = a
      · exact hbi.symm
      · rw [Function.update_of_ne hbi] at hqb
        exact (hNew b hb hqb).symm
    · rw [Function.update_of_ne hai] at hqa
      by_cases hbi : b = i
      · subst hbi
        rw [Function.update_self] at hqb
        cases hqb
        exact hNew a ha hqa
      · rw [Function.update_of_ne hbi] at hqb
        exact hw.unique a ha b hb q hqa hqb

theorem Holds.insert (hs : Holds n slots S) (hin : i < n) (hStop : Stops slots k i) :
    Holds n (Function.update slots i (some k)) (insert k S) := by
  have hExt := update_extends hStop
  intro q
  rw [Finset.mem_insert]
  constructor
  · rintro (rfl | hq)
    · exact ⟨i, hin, Function.update_self ..⟩
    · obtain ⟨j, hj, hHeld⟩ := (hs q).mp hq
      exact ⟨j, hj, hExt.some hHeld⟩
  · rintro ⟨j, hj, hq⟩
    by_cases hji : j = i
    · subst hji
      rw [Function.update_self] at hq
      exact Or.inl (Option.some.inj hq).symm
    · rw [Function.update_of_ne hji] at hq
      exact Or.inr ((hs q).mpr ⟨j, hj, hq⟩)

/-! ## Only the slots of the table count -/

theorem probe_congr (hn : 0 < n) {slots' : Slots κ} (hSame : ∀ i < n, slots i = slots' i)
    (k : κ) (fuel a : Nat) :
    probe n slots k fuel (a % n) = probe n slots' k fuel (a % n) := by
  induction fuel generalizing a with
  | zero => rfl
  | succ fuel ih =>
    simp only [probe, Stops, hSame (a % n) (Nat.mod_lt a hn), next_mod hn, ih]

theorem insertAll_congr (hn : 0 < n) (hHash : ∀ k, hash k < n) {fuel : Nat} {ks : List κ}
    {other final : Slots κ} (hSame : ∀ i < n, slots i = other i)
    (hRun : insertAll n hash fuel ks slots = some final) :
    ∃ final', insertAll n hash fuel ks other = some final' ∧ ∀ i < n, final i = final' i := by
  induction ks generalizing slots other with
  | nil =>
    obtain rfl := Option.some.inj hRun
    exact ⟨other, rfl, hSame⟩
  | cons k ks ih =>
    obtain ⟨i, hp, hRest⟩ := Option.bind_eq_some_iff.mp hRun
    have hUpdate : ∀ j < n, Function.update slots i (some k) j =
        Function.update other i (some k) j := by
      intro j hj
      by_cases hji : j = i
      · subst hji
        rw [Function.update_self, Function.update_self]
      · rw [Function.update_of_ne hji, Function.update_of_ne hji, hSame j hj]
    have hp' := probe_congr hn hSame k fuel (hash k)
    rw [Nat.mod_eq_of_lt (hHash k), hp] at hp'
    obtain ⟨final', hFinal, hAgree⟩ := ih hUpdate hRest
    exact ⟨final', by rw [insertAll, ← hp']; exact hFinal, hAgree⟩

/-! ## Runs -/

/-- The run lemma: after a run that gets through, with any fuel, the invariant holds, the
keys held are those held before and those inserted, and no occupied slot has changed. -/
theorem insertAll_preserves (hn : 0 < n) (hHash : ∀ k, hash k < n) {fuel : Nat} {ks : List κ}
    {slots' : Slots κ} (hw : WellProbed n hash slots) (hs : Holds n slots S)
    (hRun : insertAll n hash fuel ks slots = some slots') :
    WellProbed n hash slots' ∧ Holds n slots' (S ∪ ks.toFinset) ∧ Extends slots slots' := by
  induction ks generalizing slots S with
  | nil =>
    obtain rfl := Option.some.inj hRun
    exact ⟨hw, by simpa using hs, .refl _⟩
  | cons k ks ih =>
    obtain ⟨i, hp, hRest⟩ := Option.bind_eq_some_iff.mp hRun
    obtain ⟨hin, hStop⟩ := probe_stops hn (Nat.mod_eq_of_lt (hHash k) ▸ hp)
    obtain ⟨hw', hs', hExt⟩ := ih (hw.insert hn (hHash k) hp) (hs.insert hin hStop) hRest
    rw [List.toFinset_cons, Finset.union_insert, ← Finset.insert_union]
    exact ⟨hw', hs', (update_extends hStop).trans hExt⟩

/-- Keys of which at most `n` are distinct, those held before included, are all inserted. -/
theorem insertAll_total (hn : 0 < n) (hHash : ∀ k, hash k < n) {fuel : Nat} (hFuel : n ≤ fuel)
    {ks : List κ} (hw : WellProbed n hash slots) (hs : Holds n slots S)
    (hCard : (S ∪ ks.toFinset).card ≤ n) :
    ∃ slots', insertAll n hash fuel ks slots = some slots' := by
  induction ks generalizing slots S with
  | nil => exact ⟨slots, rfl⟩
  | cons k ks ih =>
    rw [List.toFinset_cons, Finset.union_insert, ← Finset.insert_union] at hCard
    have hRoom : k ∈ S ∨ S.card < n := by
      by_cases hk : k ∈ S
      · exact Or.inl hk
      · have hSub : insert k S ⊆ insert k S ∪ ks.toFinset := Finset.subset_union_left
        have hLe := Finset.card_le_card hSub
        rw [Finset.card_insert_of_notMem hk] at hLe
        exact Or.inr (by omega)
    obtain ⟨j, hj, hStop⟩ := (hw.stop_iff hs).mpr hRoom
    obtain ⟨i, hp⟩ := probe_isSome_of_stop (a := hash k) hn hFuel hj hStop
    obtain ⟨hin, hStop⟩ := probe_stops hn hp
    rw [Nat.mod_eq_of_lt (hHash k)] at hp
    rw [insertAll, hp]
    exact ih (hw.insert hn (hHash k) hp) (hs.insert hin hStop) hCard

end

end DebugCode.Lib.Probe
