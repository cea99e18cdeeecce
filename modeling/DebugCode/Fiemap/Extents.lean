import DebugCode.Lib.CInt

/-!
# The extents of a file

`fiemap.c` asks for the number of extents of a file, makes room for them and asks again for
the extents themselves. Between the two calls the file may change. The room is computed in
`size_t` and kept in an `int`.

* `readFiemap_eq_map_iff`: the block that is dumped, where there is one.
* `readFiemap_safe_iff`: when all extents written and read lie in that block and those read
  were written.
-/

namespace DebugCode.Fiemap

open Lib

/-- `sizeof(struct fiemap)`, without extents. -/
def sizeofFiemap : Nat := 32

/-- `sizeof(struct fiemap_extent)` -/
def sizeofFiemapExtent : Nat := 56

/-- The block behind the pointer: its size in bytes, the two counts in it, and the number of
extents the last `ioctl` wrote into it. -/
structure Block where
  size : Nat
  fmExtentCount : Nat
  fmMappedExtents : Nat
  written : Nat

/-- What the run meets: whether `malloc` succeeds, the number of extents of the file at the
first and at the second `ioctl` (`none` when it fails), and the sizes `realloc` has room for. -/
structure Env where
  malloc : Bool
  first : Option UInt32
  realloc : Nat → Bool
  second : Option UInt32

/-- `realloc` has no block for `0` bytes nor for more than the largest object. -/
def Env.reallocates (env : Env) (size : Nat) : Bool :=
  0 < size && size < 2 ^ 63 && env.realloc size

/-- `FS_IOC_FIEMAP` on a file with `count` extents: only their number, or the first
`fm_extent_count` of them. -/
def ioctlFiemap (count : Nat) (fiemap : Block) : Block :=
  if fiemap.fmExtentCount = 0 then { fiemap with fmMappedExtents := count, written := 0 }
  else { fiemap with
    fmMappedExtents := min fiemap.fmExtentCount count
    written := min fiemap.fmExtentCount count }

/-- `null` comes with a message on `stderr`; `crash` is a `memset` of nearly all memory. -/
inductive Outcome : Type
  | null (stderr : String)
  | crash
  | map (fiemap : Block)

/-- `int extents_size` -/
def extentsSize (mapped : Nat) : Int := toInt (sizeofFiemapExtent * mapped : Nat)

/-- `sizeof(struct fiemap) + extents_size`, where the `int` is converted to `size_t`. -/
def allocation (mapped : Nat) : Nat := ((sizeofFiemap + extentsSize mapped) % 2 ^ 64).toNat

def readFiemap (env : Env) : Outcome :=
  if env.malloc then
    match env.first with
    | none => .null "fiemap ioctl() failed\n"
    | some count =>
      let fiemap := ioctlFiemap count.toNat ⟨sizeofFiemap, 0, 0, 0⟩
      let mapped := fiemap.fmMappedExtents
      if env.reallocates (allocation mapped) then
        -- `memset(fiemap->fm_extents, 0, extents_size)` takes the `int` as a `size_t`
        if extentsSize mapped < 0 then .crash
        else
          match env.second with
          | none => .null "fiemap ioctl() failed\n"
          | some count => .map (ioctlFiemap count.toNat ⟨allocation mapped, mapped, 0, 0⟩)
      else .null "Out of memory allocating fiemap\n"
  else .null "Out of memory allocating fiemap\n"

/-- The subscripts of `fm_extents` that the loop of `dump_fiemap` prints, `i` being an `int`. -/
def dumpFiemap (fiemap : Block) : List Int :=
  (List.range fiemap.fmMappedExtents).map fun i : Nat => toInt i

/-- `fm_extents[i]` lies in the block. -/
def Block.Inside (fiemap : Block) (i : Int) : Prop :=
  0 ≤ i ∧ sizeofFiemap + sizeofFiemapExtent * (i + 1) ≤ fiemap.size

/-- What the second `ioctl` writes and what is printed lies in the block, and what is printed
was written. -/
structure Block.Safe (fiemap : Block) : Prop where
  written_inside : ∀ i < fiemap.written, fiemap.Inside i
  printed_inside : ∀ i ∈ dumpFiemap fiemap, fiemap.Inside i
  printed_written : ∀ i ∈ dumpFiemap fiemap, 0 ≤ i ∧ i < fiemap.written

def Outcome.Safe (outcome : Outcome) : Prop := ∀ fiemap, outcome = .map fiemap → fiemap.Safe

/-- The run gets to the second count. -/
structure Env.Reaches (env : Env) (n₁ n₂ : UInt32) : Prop where
  malloc : env.malloc = true
  first : env.first = some n₁
  realloc : env.reallocates (allocation n₁.toNat) = true
  memset : 0 ≤ extentsSize n₁.toNat
  second : env.second = some n₂

/-- A file without extents still has none at the second call, and those of both calls have
room in what is left of the size in an `int`. -/
def Env.Consistent (env : Env) : Prop :=
  ∀ n₁ n₂, env.Reaches n₁ n₂ →
    (n₁ = 0 → n₂ = 0) ∧
      (sizeofFiemapExtent * min n₁.toNat n₂.toNat : Nat) ≤ extentsSize n₁.toNat

/-- The block that is dumped. -/
def dumped (n₁ n₂ : Nat) : Block := ioctlFiemap n₂ ⟨allocation n₁, n₁, 0, 0⟩

theorem ioctlFiemap_count (count size : Nat) :
    (ioctlFiemap count ⟨size, 0, 0, 0⟩).fmMappedExtents = count := by
  simp [ioctlFiemap]

theorem readFiemap_eq_map_iff {env : Env} {fiemap : Block} :
    readFiemap env = .map fiemap ↔
      ∃ n₁ n₂, env.Reaches n₁ n₂ ∧ dumped n₁.toNat n₂.toNat = fiemap := by
  constructor
  · intro hMap
    unfold readFiemap at hMap
    split_ifs at hMap with hMalloc
    cases hFirst : env.first with
    | none => simp [hFirst] at hMap
    | some n₁ =>
      simp only [hFirst, ioctlFiemap_count] at hMap
      split_ifs at hMap with hRealloc hMemset
      cases hSecond : env.second with
      | none => simp [hSecond] at hMap
      | some n₂ =>
        simp only [hSecond, Outcome.map.injEq] at hMap
        exact ⟨n₁, n₂, ⟨hMalloc, hFirst, hRealloc, Int.not_lt.mp hMemset, hSecond⟩, hMap⟩
  · rintro ⟨n₁, n₂, hReaches, rfl⟩
    simp only [readFiemap, hReaches.malloc, hReaches.first, hReaches.second, ioctlFiemap_count,
      hReaches.realloc, if_true, if_neg (Int.not_lt.mpr hReaches.memset), dumped]

/-! ## The block -/

section

variable {n₁ n₂ : Nat}

/-- The size that is allocated where `memset` returns. -/
theorem allocation_eq (hSize : 0 ≤ extentsSize n₁) :
    (allocation n₁ : Int) = sizeofFiemap + extentsSize n₁ := by
  have hLt := toInt_lt (sizeofFiemapExtent * n₁ : Nat)
  unfold extentsSize at *
  rw [allocation, extentsSize]
  unfold sizeofFiemap
  omega

theorem inside_iff {fiemap : Block} (hSize : 0 ≤ extentsSize n₁)
    (hBlock : fiemap.size = allocation n₁) (i : Nat) :
    fiemap.Inside i ↔ (sizeofFiemapExtent * (i + 1) : Int) ≤ extentsSize n₁ := by
  have hAllocation := allocation_eq hSize
  rw [Block.Inside, hBlock, hAllocation]
  omega

theorem ioctlFiemap_size (count : Nat) (fiemap : Block) :
    (ioctlFiemap count fiemap).size = fiemap.size := by
  rw [ioctlFiemap]
  split
  · rfl
  · rfl

theorem dumped_size (n₁ n₂ : Nat) : (dumped n₁ n₂).size = allocation n₁ := by
  rw [dumped, ioctlFiemap_size]

/-- For a file without extents the second `ioctl` only counts again. -/
theorem dumped_zero (n₂ : Nat) :
    (dumped 0 n₂).fmMappedExtents = n₂ ∧ (dumped 0 n₂).written = 0 := by
  simp [dumped, ioctlFiemap]

theorem dumped_pos (hPos : 0 < n₁) (n₂ : Nat) :
    (dumped n₁ n₂).fmMappedExtents = min n₁ n₂ ∧ (dumped n₁ n₂).written = min n₁ n₂ := by
  have hNe : n₁ ≠ 0 := by omega
  simp [dumped, ioctlFiemap, hNe]

theorem mem_dumpFiemap {fiemap : Block} {i : Int} :
    i ∈ dumpFiemap fiemap ↔ ∃ k < fiemap.fmMappedExtents, toInt k = i := by
  simp [dumpFiemap]

/-- The first subscript is printed when there is one, written or not. -/
theorem dumped_zero_safe_iff : (dumped 0 n₂).Safe ↔ n₂ = 0 := by
  obtain ⟨hMapped, hWritten⟩ := dumped_zero n₂
  constructor
  · intro hSafe
    by_contra hNe
    have hPrinted : toInt (0 : Nat) ∈ dumpFiemap (dumped 0 n₂) :=
      mem_dumpFiemap.mpr ⟨0, by omega, rfl⟩
    have hLt := hSafe.printed_written _ hPrinted
    rw [hWritten] at hLt
    omega
  · intro hNone
    have hEmpty : dumpFiemap (dumped 0 n₂) = [] := by rw [dumpFiemap, hMapped, hNone]; rfl
    constructor
    · intro i hi
      omega
    · intro i hi
      rw [hEmpty] at hi
      cases hi
    · intro i hi
      rw [hEmpty] at hi
      cases hi

/-- The extents of a file that had some are written from the first on, so the last one is
what matters. What is printed is then what was written, since the size fits an `int`. -/
theorem dumped_pos_safe_iff (hPos : 0 < n₁) (hSize : 0 ≤ extentsSize n₁) :
    (dumped n₁ n₂).Safe ↔ (sizeofFiemapExtent * min n₁ n₂ : Nat) ≤ extentsSize n₁ := by
  obtain ⟨hMapped, hWritten⟩ := dumped_pos hPos n₂
  have hInside := inside_iff hSize (dumped_size n₁ n₂)
  have hBound := toInt_lt (sizeofFiemapExtent * n₁ : Nat)
  rw [← extentsSize] at hBound
  unfold sizeofFiemapExtent at *
  constructor
  · intro hSafe
    by_cases hNone : min n₁ n₂ = 0
    · rw [hNone]
      exact hSize
    · have hLast := (hInside (min n₁ n₂ - 1)).mp
        (hSafe.written_inside _ (by rw [hWritten]; omega))
      omega
  · intro hRoom
    have hSame : ∀ i ∈ dumpFiemap (dumped n₁ n₂), ∃ k < min n₁ n₂, (k : Int) = i := by
      intro i hi
      obtain ⟨k, hk, rfl⟩ := mem_dumpFiemap.mp hi
      rw [hMapped] at hk
      exact ⟨k, hk, ((toInt_eq_self_iff (by omega)).mpr (by omega)).symm⟩
    constructor
    · intro i hi
      rw [hWritten] at hi
      exact (hInside i).mpr (by omega)
    · intro i hi
      obtain ⟨k, hk, rfl⟩ := hSame i hi
      exact (hInside k).mpr (by omega)
    · intro i hi
      obtain ⟨k, hk, rfl⟩ := hSame i hi
      rw [hWritten]
      omega

end

/-! ## When everything lies in the block -/

/-- The block is safe exactly when the two counts are consistent. -/
theorem dumped_safe_iff {n₁ n₂ : Nat} (hSize : 0 ≤ extentsSize n₁) : (dumped n₁ n₂).Safe ↔
    (n₁ = 0 → n₂ = 0) ∧ (sizeofFiemapExtent * min n₁ n₂ : Nat) ≤ extentsSize n₁ := by
  rcases Nat.eq_zero_or_pos n₁ with rfl | hPos
  · have hRoom : (sizeofFiemapExtent * min 0 n₂ : Nat) ≤ extentsSize 0 := by
      rw [Nat.zero_min]
      exact hSize
    rw [dumped_zero_safe_iff]
    exact ⟨fun hNone => ⟨fun _ => hNone, hRoom⟩, fun hBoth => hBoth.1 rfl⟩
  · rw [dumped_pos_safe_iff hPos hSize]
    exact ⟨fun hRoom => ⟨fun hZero => absurd hZero (Nat.ne_of_gt hPos), hRoom⟩, And.right⟩

/-- The extents are written and read inside the block, and written before they are read,
exactly when the counts of the two calls are consistent. -/
theorem readFiemap_safe_iff (env : Env) : (readFiemap env).Safe ↔ env.Consistent := by
  have hZero : ∀ n : UInt32, n.toNat = 0 ↔ n = 0 := fun n =>
    ⟨fun h => UInt32.toNat.inj h, fun h => h ▸ rfl⟩
  constructor
  · intro hSafe n₁ n₂ hReaches
    have hBlock := (dumped_safe_iff hReaches.memset).mp
      (hSafe _ (readFiemap_eq_map_iff.mpr ⟨n₁, n₂, hReaches, rfl⟩))
    rwa [hZero, hZero] at hBlock
  · intro hConsistent fiemap hMap
    obtain ⟨n₁, n₂, hReaches, rfl⟩ := readFiemap_eq_map_iff.mp hMap
    apply (dumped_safe_iff hReaches.memset).mpr
    rw [hZero, hZero]
    exact hConsistent n₁ n₂ hReaches

/-- From one extent to 38347922 the size is exact, and the file may change as it likes. -/
theorem consistent_of_le {env : Env}
    (hFew : ∀ n, env.first = some n → 0 < n.toNat ∧ n.toNat ≤ 38347922) : env.Consistent := by
  intro n₁ n₂ hReaches
  obtain ⟨hPos, hLe⟩ := hFew n₁ hReaches.first
  have hExact : extentsSize n₁.toNat = (sizeofFiemapExtent * n₁.toNat : Nat) :=
    (toInt_eq_self_iff (by omega)).mpr (by unfold sizeofFiemapExtent; omega)
  constructor
  · intro hZero
    rw [hZero] at hPos
    cases hPos
  · rw [hExact]
    exact Int.ofNat_le.mpr (Nat.mul_le_mul_left _ (Nat.min_le_left _ _))

/-- A file that gets its first extent between the two calls, and one of which the size of the
extents has only 24 bytes left in an `int`. -/
theorem readFiemap_unsafe :
    ¬ (readFiemap ⟨true, some 0, fun _ => true, some 1⟩).Safe ∧
      ¬ (readFiemap ⟨true, some 76695845, fun _ => true, some 76695845⟩).Safe := by
  constructor
  · intro hSafe
    have hReaches : Env.Reaches ⟨true, some 0, fun _ => true, some 1⟩ 0 1 :=
      ⟨rfl, rfl, by decide, by decide, rfl⟩
    have hBlock := (dumped_safe_iff hReaches.memset).mp
      (hSafe _ (readFiemap_eq_map_iff.mpr ⟨0, 1, hReaches, rfl⟩))
    exact absurd (hBlock.1 rfl) (by decide)
  · intro hSafe
    have hReaches : Env.Reaches ⟨true, some 76695845, fun _ => true, some 76695845⟩
        76695845 76695845 := ⟨rfl, rfl, by decide, by decide, rfl⟩
    have hBlock := (dumped_safe_iff hReaches.memset).mp
      (hSafe _ (readFiemap_eq_map_iff.mpr ⟨76695845, 76695845, hReaches, rfl⟩))
    exact absurd hBlock.2 (by decide)

end DebugCode.Fiemap
