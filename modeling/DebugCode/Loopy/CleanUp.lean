import DebugCode.Loopy.Create
import Mathlib.Data.Finset.Basic

/-!
# The clean-up loop of loopy

The second loop of `loop_create` goes over the completed rounds of the first one. It retries
`LOOP_CTL_REMOVE` for as long as the device is busy, which is as long as it is bound.

* `loopCreate_undone_iff`: with a clean-up that succeeds, everything is undone exactly when the
  set-up loop is not left in the middle of a round.
* `loopCreate_terminates_iff`: the clean-up ends exactly when every device whose backing file
  is re-opened is unbound.
-/

namespace DebugCode.Loopy

open Lib

/-- The outcomes of the clean-up calls for device `i`. `remove` is that of `LOOP_CTL_REMOVE` on
a device that is not bound, where it does not fail with EBUSY. -/
structure CleanUp where
  reopen : Nat → Bool
  openLoop : Nat → Bool
  clrFd : Nat → Bool
  remove : Nat → Bool

/-- The calls at `retry`, with at most `fuel` tries: `none` when each of them found the device
busy. -/
def removeLoop (removed : Bool) (nr : Int) : Nat → Kernel → Option Kernel
  | 0, _ => none
  | fuel + 1, k =>
    if nr ∈ k.bound then removeLoop removed nr fuel k
    else some (if removed then k.removed nr else k)

/-- `LOOP_CLR_FD` on the device, when it can be opened. -/
def clear (env : CleanUp) (i : Nat) (nr : Int) (k : Kernel) : Kernel :=
  if env.openLoop i then
    let k := k.opened (.loop nr)
    let k := if env.clrFd i then k.unbind nr else k
    k.closed (.loop nr)
  else k

/-- The body of the clean-up loop. -/
def cleanUpDevice (env : CleanUp) (fuel : Nat) (i : Nat) (nr : Int) (k : Kernel) :
    Option Kernel :=
  if env.reopen i then
    let k := (k.opened (.backing nr)).unlinked nr
    let k := clear env i nr k
    let k := k.closed (.backing nr)
    removeLoop (env.remove i) nr fuel k
  else some k

/-- The clean-up loop over some of the devices. -/
def cleanUpLoop (env : CleanUp) (fuel : Nat) (devnr : Nat → Int) : List Nat → Kernel → Option Kernel
  | [], k => some k
  | i :: is, k => (cleanUpDevice env fuel i (devnr i) k).bind (cleanUpLoop env fuel devnr is)

/-- `loop_create`, with what it returns; `controlErrno` is the `errno` of a failure to open
`/dev/loop-control`. -/
def loopCreate (controlErrno : Option Int) (env : SetUp) (cleanEnv : CleanUp) (fuel : Nat) :
    Option (Int × Kernel) :=
  match controlErrno with
  | some errno => some (-errno, Kernel.start)
  | none =>
    let k := (setUp env (Kernel.start.opened .control)).2
    (cleanUpLoop cleanEnv fuel env.getFree (List.range k.n) k).map
      fun k => (0, k.closed .control)

/-! ## Retrying -/

theorem removeLoop_busy {nr : Int} {k : Kernel} (hBound : nr ∈ k.bound) (removed : Bool)
    (fuel : Nat) : removeLoop removed nr fuel k = none := by
  induction fuel with
  | zero => rfl
  | succ fuel ih => rw [removeLoop, if_pos hBound, ih]

theorem removeLoop_free {nr : Int} {k : Kernel} (hFree : nr ∉ k.bound) (removed : Bool)
    (fuel : Nat) :
    removeLoop removed nr (fuel + 1) k = some (if removed then k.removed nr else k) := by
  rw [removeLoop, if_neg hFree]

/-- Whether the binding of device `i` is released before `retry`. -/
def CleanUp.releases (env : CleanUp) (i : Nat) : Bool := env.openLoop i && env.clrFd i

/-- What happens to the bindings before `retry`. -/
theorem clear_bound (env : CleanUp) (i : Nat) (nr : Int) (k : Kernel) :
    (clear env i nr k).bound = if env.releases i then k.bound.erase nr else k.bound := by
  unfold clear CleanUp.releases
  cases env.openLoop i <;> cases env.clrFd i <;> rfl

/-- What the kernel looks like at `retry`. -/
def atRetry (env : CleanUp) (i : Nat) (nr : Int) (k : Kernel) : Kernel :=
  (clear env i nr ((k.opened (.backing nr)).unlinked nr)).closed (.backing nr)

theorem cleanUpDevice_reopened {env : CleanUp} {i : Nat} (hReopen : env.reopen i = true)
    (fuel : Nat) (nr : Int) (k : Kernel) :
    cleanUpDevice env fuel i nr k = removeLoop (env.remove i) nr fuel (atRetry env i nr k) := by
  rw [cleanUpDevice, if_pos hReopen]
  rfl

theorem cleanUpDevice_skipped {env : CleanUp} {i : Nat} (hReopen : env.reopen i = false)
    (fuel : Nat) (nr : Int) (k : Kernel) : cleanUpDevice env fuel i nr k = some k := by
  rw [cleanUpDevice, if_neg (by simp [hReopen])]

theorem atRetry_bound (env : CleanUp) (i : Nat) (nr : Int) (k : Kernel) :
    (atRetry env i nr k).bound = if env.releases i then k.bound.erase nr else k.bound :=
  clear_bound env i nr _

theorem removeLoop_bound {removed : Bool} {nr : Int} {fuel : Nat} {k k' : Kernel}
    (hEnd : removeLoop removed nr fuel k = some k') : k'.bound = k.bound := by
  induction fuel with
  | zero => cases hEnd
  | succ fuel ih =>
    rw [removeLoop] at hEnd
    split at hEnd
    · exact ih hEnd
    · obtain rfl := Option.some.inj hEnd
      cases removed <;> rfl

/-- The clean-up of one device leaves the bindings of the others alone. -/
theorem cleanUpDevice_keeps {env : CleanUp} {fuel i : Nat} {nr nr' : Int} {k k' : Kernel}
    (hEnd : cleanUpDevice env fuel i nr k = some k') (hNe : nr' ≠ nr) (hMem : nr' ∈ k.bound) :
    nr' ∈ k'.bound := by
  cases hReopen : env.reopen i with
  | true =>
    rw [cleanUpDevice_reopened hReopen] at hEnd
    rw [removeLoop_bound hEnd, atRetry_bound]
    split
    · exact Finset.mem_erase.mpr ⟨hNe, hMem⟩
    · exact hMem
  | false =>
    rw [cleanUpDevice_skipped hReopen] at hEnd
    obtain rfl := Option.some.inj hEnd
    exact hMem

theorem cleanUpDevice_ends {env : CleanUp} {i : Nat}
    (hReleases : env.reopen i = true → env.releases i = true) (fuel : Nat) (nr : Int)
    (k : Kernel) : ∃ k', cleanUpDevice env (fuel + 1) i nr k = some k' := by
  cases hReopen : env.reopen i with
  | true =>
    have hFree : nr ∉ (atRetry env i nr k).bound := by
      rw [atRetry_bound, if_pos (hReleases hReopen)]
      exact Finset.notMem_erase nr k.bound
    rw [cleanUpDevice_reopened hReopen, removeLoop_free hFree]
    exact ⟨_, rfl⟩
  | false => exact ⟨k, cleanUpDevice_skipped hReopen (fuel + 1) nr k⟩

theorem cleanUpDevice_hangs {env : CleanUp} {i : Nat} {nr : Int} {k : Kernel}
    (hReopen : env.reopen i = true) (hReleases : env.releases i = false) (hBound : nr ∈ k.bound)
    (fuel : Nat) : cleanUpDevice env fuel i nr k = none := by
  rw [cleanUpDevice_reopened hReopen]
  apply removeLoop_busy
  rw [atRetry_bound, hReleases]
  exact hBound

theorem cleanUpLoop_ends {env : CleanUp} {devnr : Nat → Int} {is : List Nat}
    (hReleases : ∀ i ∈ is, env.reopen i = true → env.releases i = true) (fuel : Nat)
    (k : Kernel) : ∃ k', cleanUpLoop env (fuel + 1) devnr is k = some k' := by
  induction is generalizing k with
  | nil => exact ⟨k, rfl⟩
  | cons i is ih =>
    obtain ⟨k₁, hHere⟩ := cleanUpDevice_ends (hReleases i List.mem_cons_self) fuel (devnr i) k
    obtain ⟨k₂, hRest⟩ := ih (fun j hj => hReleases j (List.mem_cons_of_mem i hj)) k₁
    refine ⟨k₂, ?_⟩
    rw [cleanUpLoop, hHere]
    exact hRest

/-- The loop hangs at the first device that is re-opened and not released. -/
theorem cleanUpLoop_hangs {env : CleanUp} {devnr : Nat → Int} {is : List Nat}
    (hDistinct : (is.map devnr).Nodup) {k : Kernel} (hBound : ∀ i ∈ is, devnr i ∈ k.bound)
    {i : Nat} (hi : i ∈ is) (hReopen : env.reopen i = true) (hReleases : env.releases i = false)
    (fuel : Nat) : cleanUpLoop env fuel devnr is k = none := by
  induction is generalizing k with
  | nil => cases hi
  | cons j is ih =>
    obtain ⟨hOther, hRest⟩ := List.nodup_cons.mp hDistinct
    rw [cleanUpLoop]
    rcases List.mem_cons.mp hi with rfl | hLater
    · rw [cleanUpDevice_hangs hReopen hReleases (hBound i hi) fuel]
      rfl
    · cases hHere : cleanUpDevice env fuel j (devnr j) k with
      | none => rfl
      | some k₁ =>
        apply ih hRest ?_ hLater
        intro m hm
        have hNe : devnr m ≠ devnr j := fun hSame => hOther (hSame ▸ List.mem_map_of_mem hm)
        exact cleanUpDevice_keeps hHere hNe (hBound m (List.mem_cons_of_mem j hm))

/-! ## The clean-up of a set-up -/

/-- The number of devices set up: the rounds completed before the loop is left. -/
def devicesSetUp (controlErrno : Option Int) (env : SetUp) : Nat :=
  controlErrno.elim (setUp env (Kernel.start.opened .control)).2.n fun _ => 0

/-- The loop is left with the devices of the completed rounds bound, and only those. -/
theorem setUp_bound (env : SetUp) :
    (setUp env (Kernel.start.opened .control)).2.bound =
      env.done (setUp env (Kernel.start.opened .control)).2.n := by
  rw [(setUp_held env).1]
  cases setUpCalls.find? env.fails with
  | none => rfl
  | some c => cases c <;> rfl

theorem setUp_n_le (env : SetUp) :
    (setUp env (Kernel.start.opened .control)).2.n ≤
      (setUpCalls.find? env.fails).elim maxLoop Call.obtained := by
  rw [(setUp_held env).1]
  cases setUpCalls.find? env.fails with
  | none => exact Nat.le_refl maxLoop
  | some c =>
    cases c with
    | getFree n => exact Nat.le_refl n
    | openBacking n => exact Nat.le_succ n
    | openLoop n => exact Nat.le_succ n
    | setFd n => exact Nat.le_succ n

/-- The devices of completed rounds are distinct. -/
theorem getFree_distinct {env : SetUp} {n : Nat} (hFree : ∀ i < n, 0 ≤ env.getFree i) :
    ((List.range n).map env.getFree).Nodup := by
  apply List.nodup_range.map_on
  intro i hi j hj hSame
  have hi := List.mem_range.mp hi
  have hj := List.mem_range.mp hj
  rcases Nat.lt_trichotomy i j with hLt | hEq | hLt
  · exact absurd hSame (env.hFresh i j hLt (hFree j hj))
  · exact hEq
  · exact absurd hSame.symm (env.hFresh j i hLt (hFree i hi))

/-- The clean-up ends exactly when, for each device set up whose backing file can be re-opened,
the device can be opened and `LOOP_CLR_FD` succeeds. -/
theorem loopCreate_terminates_iff (controlErrno : Option Int) (env : SetUp) (cleanEnv : CleanUp) :
    (∃ fuel, (loopCreate controlErrno env cleanEnv fuel).isSome = true) ↔
      ∀ i < devicesSetUp controlErrno env, cleanEnv.reopen i = true →
        cleanEnv.openLoop i = true ∧ cleanEnv.clrFd i = true := by
  cases controlErrno with
  | some errno =>
    refine iff_of_true ⟨0, rfl⟩ ?_
    intro i hi
    cases hi
  | none =>
    have hReleases : ∀ i, cleanEnv.releases i = true ↔
        cleanEnv.openLoop i = true ∧ cleanEnv.clrFd i = true := fun i => Bool.and_eq_true_iff
    simp only [loopCreate, devicesSetUp, Option.elim_none, Option.isSome_map, ← hReleases]
    constructor
    · rintro ⟨fuel, hEnds⟩ i hi hReopen
      by_contra hStuck
      have hFree : ∀ j < (setUp env (Kernel.start.opened .control)).2.n, 0 ≤ env.getFree j :=
        fun j hj => (setUp_held env).2 j (Nat.lt_of_lt_of_le hj (setUp_n_le env))
      have hBound : ∀ j ∈ List.range (setUp env (Kernel.start.opened .control)).2.n,
          env.getFree j ∈ (setUp env (Kernel.start.opened .control)).2.bound := by
        intro j hj
        rw [setUp_bound]
        exact Finset.mem_image_of_mem _ (Finset.mem_range.mpr (List.mem_range.mp hj))
      rw [cleanUpLoop_hangs (getFree_distinct hFree) hBound (List.mem_range.mpr hi) hReopen
        (by simpa using hStuck)] at hEnds
      cases hEnds
    · intro hAll
      obtain ⟨k, hEnd⟩ : ∃ k, cleanUpLoop cleanEnv 1 env.getFree
          (List.range (setUp env (Kernel.start.opened .control)).2.n)
          (setUp env (Kernel.start.opened .control)).2 = some k :=
        cleanUpLoop_ends (fun i hi => hAll i (List.mem_range.mp hi)) 0 _
      exact ⟨1, by rw [hEnd]; rfl⟩

/-- A set-up of device 0, after which there is no free device. -/
def oneDevice : SetUp where
  getFree n := if n = 0 then 0 else -1
  openBacking _ := true
  openLoop _ := true
  setFd _ := true
  hFresh m n hLt hFree := by
    have hn : n ≠ 0 := by omega
    simp [hn] at hFree

/-- A clean-up in which only `LOOP_CLR_FD` fails. -/
def clrFdFails : CleanUp := ⟨fun _ => true, fun _ => true, fun _ => false, fun _ => true⟩

/-- A `LOOP_CLR_FD` that fails keeps the device bound, and the retry never ends. -/
theorem loopCreate_hangs_oneDevice :
    ¬ ∃ fuel, (loopCreate none oneDevice clrFdFails fuel).isSome = true := by
  rintro ⟨fuel, hEnds⟩
  have hOne : (setUp oneDevice (Kernel.start.opened .control)).2.n = 1 := by decide +kernel
  have hBound : 0 ∈ (setUp oneDevice (Kernel.start.opened .control)).2.bound := by decide +kernel
  have hDistinct : ([0].map oneDevice.getFree).Nodup := List.nodup_singleton _
  have hHangs : cleanUpLoop clrFdFails fuel oneDevice.getFree [0]
      (setUp oneDevice (Kernel.start.opened .control)).2 = none :=
    cleanUpLoop_hangs hDistinct (List.forall_mem_singleton.mpr hBound) List.mem_cons_self rfl rfl
      fuel
  simp only [loopCreate, hOne, List.range_one, hHangs] at hEnds
  cases hEnds

/-! ## What is undone -/

/-- A clean-up whose calls all succeed. -/
def CleanUp.succeeds : CleanUp := ⟨fun _ => true, fun _ => true, fun _ => true, fun _ => true⟩

/-- Every backing file is unlinked, every device number removed and not bound, and every
descriptor closed. -/
structure Kernel.Undone (k : Kernel) : Prop where
  files : k.files = ∅
  devices : k.devices = ∅
  bound : k.bound = ∅
  fds : k.fds = []

def Kernel.undo (nr : Int) (k : Kernel) : Kernel := ((k.unlinked nr).unbind nr).removed nr

theorem cleanUpDevice_succeeds (fuel i : Nat) (nr : Int) (k : Kernel) :
    cleanUpDevice .succeeds (fuel + 1) i nr k = some (k.undo nr) := by
  have hRetry : atRetry .succeeds i nr k = (k.unlinked nr).unbind nr := by
    show Kernel.closed (.backing nr) (Kernel.closed (.loop nr) (Kernel.opened (.loop nr)
      (Kernel.opened (.backing nr) ((k.unlinked nr).unbind nr)))) = _
    rw [Kernel.closed_opened, Kernel.closed_opened]
  have hFree : nr ∉ (atRetry .succeeds i nr k).bound := by
    rw [hRetry]
    exact Finset.notMem_erase nr k.bound
  rw [cleanUpDevice_reopened rfl, removeLoop_free hFree, hRetry]
  rfl

/-- A clean-up that succeeds undoes the completed rounds. -/
theorem cleanUpLoop_succeeds (fuel : Nat) (devnr : Nat → Int) (is : List Nat) (k : Kernel) :
    cleanUpLoop .succeeds (fuel + 1) devnr is k =
      some (is.foldl (fun k i => k.undo (devnr i)) k) := by
  induction is generalizing k with
  | nil => rfl
  | cons i is ih =>
    rw [cleanUpLoop, cleanUpDevice_succeeds]
    exact ih (k.undo (devnr i))

theorem foldl_undo (env : SetUp) (n : Nat) (k : Kernel) :
    (List.range n).foldl (fun k i => k.undo (env.getFree i)) k =
      ⟨k.files \ env.done n, k.devices \ env.done n, k.bound \ env.done n, k.fds, k.n⟩ := by
  induction n with
  | zero => simp [SetUp.done]
  | succ n ih =>
    rw [List.range_succ, List.foldl_append, ih, env.done_succ]
    simp [Kernel.undo, Kernel.unlinked, Kernel.unbind, Kernel.removed, Finset.sdiff_insert]

def Call.isGetFree : Call → Bool
  | .getFree _ => true
  | _ => false

/-- What is left after the clean-up of a loop that ended with `k`. -/
def leftOver (env : SetUp) (k : Kernel) : Kernel :=
  ⟨k.files \ env.done k.n, k.devices \ env.done k.n, k.bound \ env.done k.n,
    k.fds.erase .control, k.n⟩

theorem leftOver_completed (env : SetUp) (n : Nat) : (leftOver env (env.completed n)).Undone :=
  ⟨Finset.sdiff_self _, Finset.sdiff_self _, Finset.sdiff_self _, rfl⟩

/-- A device number obtained in a round that was not completed stays. -/
theorem leftOver_devices {env : SetUp} {n : Nat} (hFree : 0 ≤ env.getFree n) {k : Kernel}
    (hDevices : k.devices = insert (env.getFree n) (env.done n)) (hn : k.n = n) :
    ¬ (leftOver env k).Undone := by
  intro hUndone
  have hMem : env.getFree n ∈ (leftOver env k).devices := by
    show env.getFree n ∈ k.devices \ env.done k.n
    rw [hDevices, hn]
    exact Finset.mem_sdiff.mpr ⟨Finset.mem_insert_self _ _, SetUp.getFree_notMem_done hFree⟩
  rw [hUndone.devices] at hMem
  exact absurd hMem (Finset.notMem_empty _)

/-- With a clean-up that succeeds, everything is undone exactly when `/dev/loop-control` cannot
be opened, all rounds are completed, or `LOOP_CTL_GET_FREE` is the call that fails. -/
theorem loopCreate_undone_iff (controlErrno : Option Int) (env : SetUp) (fuel : Nat) :
    ∃ ret k, loopCreate controlErrno env .succeeds (fuel + 1) = some (ret, k) ∧
      (k.Undone ↔ controlErrno.isSome = true ∨
        ∀ c, setUpCalls.find? env.fails = some c → c.isGetFree = true) := by
  cases controlErrno with
  | some errno => exact ⟨-errno, Kernel.start, rfl, iff_of_true ⟨rfl, rfl, rfl, rfl⟩ (.inl rfl)⟩
  | none =>
    refine ⟨0, leftOver env (setUp env (Kernel.start.opened .control)).2, ?_, ?_⟩
    · simp only [loopCreate, cleanUpLoop_succeeds, foldl_undo]
      rfl
    · obtain ⟨hHeld, hFree⟩ := setUp_held env
      rw [hHeld]
      cases hExit : setUpCalls.find? env.fails with
      | none => exact iff_of_true (leftOver_completed env maxLoop) (.inr fun c hc => by cases hc)
      | some c =>
        rw [hExit] at hFree
        cases c with
        | getFree n =>
          refine iff_of_true (leftOver_completed env n) (.inr fun c hc => ?_)
          obtain rfl := Option.some.inj hc
          rfl
        | openBacking n =>
          refine iff_of_false (leftOver_devices (hFree n (Nat.lt_succ_self n)) rfl rfl) ?_
          simp [Call.isGetFree]
        | openLoop n =>
          refine iff_of_false (leftOver_devices (hFree n (Nat.lt_succ_self n)) rfl rfl) ?_
          simp [Call.isGetFree]
        | setFd n =>
          refine iff_of_false (leftOver_devices (hFree n (Nat.lt_succ_self n)) rfl rfl) ?_
          simp [Call.isGetFree]

/-- A set-up in which the first backing file cannot be created. -/
def noBacking : SetUp where
  getFree n := n
  openBacking _ := false
  openLoop _ := true
  setFd _ := true
  hFresh m n hLt _ := by omega

/-- The device number that has been obtained for the file stays. -/
theorem loopCreate_noBacking_leaves :
    ∃ ret k, loopCreate none noBacking .succeeds 1 = some (ret, k) ∧ k.devices = {0} ∧
      ¬ k.Undone := by
  have hDevices : (loopCreate none noBacking .succeeds 1).map (fun r => r.2.devices) =
      some {0} := by
    decide +kernel
  obtain ⟨r, hEnd, hLeft⟩ := Option.map_eq_some_iff.mp hDevices
  refine ⟨r.1, r.2, hEnd, hLeft, fun hUndone => ?_⟩
  rw [hUndone.devices] at hLeft
  exact Finset.singleton_ne_empty 0 hLeft.symm

end DebugCode.Loopy
