import Mathlib.Algebra.Ring.Nat
import Mathlib.Tactic.Common

/-!
# Byte memory and little-endian numbers

A memory is a byte at every offset. `load` and `store` move runs of bytes; numbers are
runs of bytes in little-endian order, as a packed C structure on x86 holds them.

* `load_store_same`, `load_store_disjoint`: what a store changes and what it leaves alone.
* `leValue_leBytes`: a number of `n` bytes is read back modulo `256 ^ n`.
-/

namespace DebugCode.Lib

abbrev Memory : Type := Nat → UInt8

namespace Memory

/-- The `n` bytes from offset `a` on. -/
def load (m : Memory) (a n : Nat) : List UInt8 := (List.range n).map fun i => m (a + i)

/-- Write `bs` from offset `a` on. -/
def store (m : Memory) (a : Nat) (bs : List UInt8) : Memory :=
  fun i => if a ≤ i then (bs[i - a]?).getD (m i) else m i

/-- Memory of zero bytes. -/
def zero : Memory := fun _ => 0

@[simp] theorem load_length (m : Memory) (a n : Nat) : (m.load a n).length = n := by
  simp [load]

@[simp] theorem load_getElem (m : Memory) (a n i : Nat) (hi : i < (m.load a n).length) :
    (m.load a n)[i] = m (a + i) := by
  simp [load]

theorem load_drop (m : Memory) (a n k : Nat) :
    (m.load a n).drop k = m.load (a + k) (n - k) := by
  apply List.ext_getElem
  · rw [List.length_drop, load_length, load_length]
  · intro i hi hi'
    rw [List.getElem_drop, load_getElem, load_getElem, Nat.add_assoc]

theorem load_congr {m m' : Memory} {a n : Nat} (h : ∀ i < n, m (a + i) = m' (a + i)) :
    m.load a n = m'.load a n := by
  apply List.map_congr_left
  intro i hi
  exact h i (List.mem_range.mp hi)

@[simp] theorem store_nil (m : Memory) (a : Nat) : m.store a [] = m := by
  funext i
  simp [store]

theorem store_below {m : Memory} {a i : Nat} (bs : List UInt8) (h : i < a) :
    m.store a bs i = m i := by
  simp [store, Nat.not_le.mpr h]

theorem store_above {m : Memory} {a i : Nat} (bs : List UInt8) (h : a + bs.length ≤ i) :
    m.store a bs i = m i := by
  simp only [store]
  split
  · rw [List.getElem?_eq_none (by omega)]
    rfl
  · rfl

theorem store_inside {m : Memory} {a i : Nat} (bs : List UInt8) (h : i < bs.length) :
    m.store a bs (a + i) = bs[i] := by
  simp [store, h]

theorem store_zero_inside {m : Memory} {i : Nat} {bs : List UInt8} (h : i < bs.length) :
    m.store 0 bs i = bs[i] := by
  simp [store, h]

theorem store_outside {m : Memory} {a i : Nat} (bs : List UInt8)
    (h : i < a ∨ a + bs.length ≤ i) : m.store a bs i = m i := by
  rcases h with h | h
  · exact store_below bs h
  · exact store_above bs h

theorem load_store_same (m : Memory) (a : Nat) (bs : List UInt8) :
    (m.store a bs).load a bs.length = bs := by
  apply List.ext_getElem
  · exact load_length _ _ _
  · intro i hi hi'
    rw [load_getElem, store_inside bs hi']

theorem load_store_disjoint {m : Memory} {a b n : Nat} (bs : List UInt8)
    (h : b + n ≤ a ∨ a + bs.length ≤ b) : (m.store a bs).load b n = m.load b n := by
  apply load_congr
  intro i hi
  exact store_outside bs (by omega)

end Memory

/-! ## Little-endian numbers -/

/-- The `n` low bytes of `v`, least first. -/
def leBytes : Nat → Nat → List UInt8
  | 0, _ => []
  | n + 1, v => UInt8.ofNat v :: leBytes n (v / 256)

def leValue : List UInt8 → Nat
  | [] => 0
  | b :: bs => b.toNat + 256 * leValue bs

@[simp] theorem leBytes_length (n v : Nat) : (leBytes n v).length = n := by
  induction n generalizing v with
  | zero => rfl
  | succ n ih => rw [leBytes, List.length_cons, ih]

theorem leValue_leBytes (n v : Nat) : leValue (leBytes n v) = v % 256 ^ n := by
  induction n generalizing v with
  | zero => simp [leBytes, leValue, Nat.mod_one]
  | succ n ih =>
    have hByte : (UInt8.ofNat v).toNat = v % 256 := by simp
    rw [leBytes, leValue, ih, hByte, Nat.pow_succ', Nat.mod_mul]

theorem leValue_eq_zero_iff {bs : List UInt8} : leValue bs = 0 ↔ ∀ b ∈ bs, b = 0 := by
  induction bs with
  | nil => simp [leValue]
  | cons b bs ih =>
    have hByte : b.toNat = 0 ↔ b = 0 := UInt8.toNat_inj (b := 0)
    rw [leValue, List.forall_mem_cons, ← ih, ← hByte]
    omega

/-- The number in the `n` bytes from offset `a` on. -/
def Memory.loadLe (m : Memory) (a n : Nat) : Nat := leValue (m.load a n)

def Memory.storeLe (m : Memory) (a n v : Nat) : Memory := m.store a (leBytes n v)

theorem Memory.loadLe_storeLe_same (m : Memory) (a n v : Nat) :
    (m.storeLe a n v).loadLe a n = v % 256 ^ n := by
  have h := Memory.load_store_same m a (leBytes n v)
  rw [leBytes_length] at h
  rw [loadLe, storeLe, h, leValue_leBytes]

theorem Memory.loadLe_store_disjoint {m : Memory} {a b n : Nat} (bs : List UInt8)
    (h : b + n ≤ a ∨ a + bs.length ≤ b) : (m.store a bs).loadLe b n = m.loadLe b n := by
  rw [loadLe, load_store_disjoint bs h, loadLe]

theorem Memory.load_storeLe_disjoint {m : Memory} {a b n k v : Nat}
    (h : b + n ≤ a ∨ a + k ≤ b) : (m.storeLe a k v).load b n = m.load b n := by
  apply load_store_disjoint
  rwa [leBytes_length]

theorem Memory.loadLe_storeLe_disjoint {m : Memory} {a b n k v : Nat}
    (h : b + n ≤ a ∨ a + k ≤ b) : (m.storeLe a k v).loadLe b n = m.loadLe b n := by
  rw [loadLe, load_storeLe_disjoint h, loadLe]

theorem Memory.loadLe_eq_zero_iff {m : Memory} {a n : Nat} :
    m.loadLe a n = 0 ↔ ∀ i < n, m (a + i) = 0 := by
  rw [loadLe, leValue_eq_zero_iff, load, List.forall_mem_map]
  simp only [List.mem_range]

end DebugCode.Lib
