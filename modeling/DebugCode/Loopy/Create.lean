import DebugCode.Lib.Script
import Mathlib.Data.Finset.Image

/-!
# The set-up loop of loopy

`loop_create` asks for a free loop device, creates a backing file for it, opens the device and
binds the file to it, up to `MAX_LOOP` times, and leaves the loop at the first call that fails.

* `setUp_follows`: the loop follows the script of its calls.
* `setUp_held`: what is held when the loop ends, and after the failure of each call.
-/

namespace DebugCode.Loopy

open Lib

/-- `MAX_LOOP` -/
@[irreducible] def maxLoop : Nat := 8192

/-- The descriptors, by what they were opened on; files and devices are known by the device
number in their names. -/
inductive Fd
  | control
  | backing (nr : Int)
  | loop (nr : Int)
  deriving DecidableEq

/-- What `loop_create` has made so far: its backing files, the device numbers obtained, the
devices bound, its open descriptors, and its variable `n`. -/
structure Kernel where
  files : Finset Int
  devices : Finset Int
  bound : Finset Int
  fds : List Fd
  n : Nat

namespace Kernel

def start : Kernel := ⟨∅, ∅, ∅, [], 0⟩

def opened (fd : Fd) (k : Kernel) : Kernel := { k with fds := fd :: k.fds }

def closed (fd : Fd) (k : Kernel) : Kernel := { k with fds := k.fds.erase fd }

def created (nr : Int) (k : Kernel) : Kernel := { k with files := insert nr k.files }

def unlinked (nr : Int) (k : Kernel) : Kernel := { k with files := k.files.erase nr }

def obtained (nr : Int) (k : Kernel) : Kernel := { k with devices := insert nr k.devices }

def removed (nr : Int) (k : Kernel) : Kernel := { k with devices := k.devices.erase nr }

def bind (nr : Int) (k : Kernel) : Kernel := { k with bound := insert nr k.bound }

def unbind (nr : Int) (k : Kernel) : Kernel := { k with bound := k.bound.erase nr }

def next (k : Kernel) : Kernel := { k with n := k.n + 1 }

@[simp] theorem closed_opened (fd : Fd) (k : Kernel) : (k.opened fd).closed fd = k := by
  simp [closed, opened]

theorem closed_opened_of_ne {fd fd' : Fd} (hNe : fd' ≠ fd) (k : Kernel) :
    (k.opened fd').closed fd = (k.closed fd).opened fd' := by
  simp [closed, opened, List.erase_cons_tail, hNe]

end Kernel

/-- The outcomes of the calls in round `n`. `LOOP_CTL_GET_FREE` returns a device that is not
bound, so none of those that the rounds before have bound. -/
structure SetUp where
  getFree : Nat → Int
  openBacking : Nat → Bool
  openLoop : Nat → Bool
  setFd : Nat → Bool
  hFresh : ∀ m n, m < n → 0 ≤ getFree n → getFree m ≠ getFree n

/-- The set-up loop of `loop_create`; `break` is its only exit. -/
def setUp (env : SetUp) : Prog Unit Kernel :=
  Prog.loop maxLoop fun n =>
    let nr := env.getFree n
    Prog.block
      [ Prog.when (nr < 0) (Prog.stop ()),
        Prog.act (Kernel.obtained nr),
        Prog.when (!env.openBacking n) (Prog.stop ()),
        Prog.act (Kernel.created nr),
        Prog.act (Kernel.opened (.backing nr)),
        Prog.when (!env.openLoop n)
          (Prog.block [Prog.act (Kernel.closed (.backing nr)), Prog.stop ()]),
        Prog.act (Kernel.opened (.loop nr)),
        Prog.when (!env.setFd n)
          (Prog.block [Prog.act (Kernel.closed (.backing nr)), Prog.stop ()]),
        Prog.act (Kernel.bind nr),
        Prog.act (Kernel.closed (.backing nr)),
        Prog.act (Kernel.closed (.loop nr)),
        Prog.act Kernel.next ]

/-! ## The script of the loop -/

/-- The calls of round `n` that may fail. -/
inductive Call
  | getFree (n : Nat)
  | openBacking (n : Nat)
  | openLoop (n : Nat)
  | setFd (n : Nat)
  deriving DecidableEq

def SetUp.fails (env : SetUp) : Call → Bool
  | .getFree n => env.getFree n < 0
  | .openBacking n => !env.openBacking n
  | .openLoop n => !env.openLoop n
  | .setFd n => !env.setFd n

def SetUp.script (env : SetUp) : Script Call Kernel where
  fails := env.fails
  ok
    | .getFree n => Kernel.obtained (env.getFree n)
    | .openBacking n => fun k => (k.created (env.getFree n)).opened (.backing (env.getFree n))
    | .openLoop n => Kernel.opened (.loop (env.getFree n))
    | .setFd n => fun k =>
      (((k.bind (env.getFree n)).closed (.backing (env.getFree n))).closed
        (.loop (env.getFree n))).next
  bail
    | .getFree _ => id
    | .openBacking _ => id
    | .openLoop n => Kernel.closed (.backing (env.getFree n))
    | .setFd n => Kernel.closed (.backing (env.getFree n))

/-- The calls of a round. -/
def round (n : Nat) : List Call := [.getFree n, .openBacking n, .openLoop n, .setFd n]

/-- The calls of a set-up loop without failures. -/
def setUpCalls : List Call := (List.range maxLoop).flatMap round

theorem setUp_follows (env : SetUp) :
    env.script.Follows (fun _ => ()) setUpCalls (setUp env) := by
  apply Script.Follows.loop
  intro n
  -- each test is followed by what its call does when it succeeds
  refine .test rfl (fun _ => rfl) (fun _ => rfl) <| .test rfl (fun _ => rfl) (fun _ => rfl) <|
    .test rfl (fun _ => rfl) (fun _ => rfl) <| .test rfl (fun _ => rfl) (fun _ => rfl) .nil

/-! ## What is held when the loop ends -/

namespace SetUp

variable (env : SetUp)

/-- The devices of the first `n` rounds. -/
def done (n : Nat) : Finset Int := (Finset.range n).image env.getFree

/-- The state after `n` completed rounds. -/
def completed (n : Nat) : Kernel := ⟨env.done n, env.done n, env.done n, [.control], n⟩

/-- The state in which the failure of a call leaves the loop: a device obtained, a backing file
created and a descriptor of the device are left to the code behind the loop. -/
def left : Call → Kernel
  | .getFree n => env.completed n
  | .openBacking n => (env.completed n).obtained (env.getFree n)
  | .openLoop n => ((env.completed n).obtained (env.getFree n)).created (env.getFree n)
  | .setFd n =>
    (((env.completed n).obtained (env.getFree n)).created (env.getFree n)).opened
      (.loop (env.getFree n))

theorem done_succ (n : Nat) : env.done (n + 1) = insert (env.getFree n) (env.done n) := by
  rw [done, Finset.range_add_one, Finset.image_insert]
  rfl

variable {env}

/-- A device of a round in progress is none of those bound. -/
theorem getFree_notMem_done {n : Nat} (hFree : 0 ≤ env.getFree n) :
    env.getFree n ∉ env.done n := by
  intro hMem
  obtain ⟨m, hm, hSame⟩ := Finset.mem_image.mp hMem
  exact env.hFresh m n (Finset.mem_range.mp hm) hFree hSame

end SetUp

/-- The number of device numbers obtained when a call is made. -/
def Call.obtained : Call → Nat
  | .getFree n => n
  | .openBacking n => n + 1
  | .openLoop n => n + 1
  | .setFd n => n + 1

/-- The state is `k₀`, and the first `m` rounds have obtained a device number. -/
def SetUp.At (env : SetUp) (m : Nat) (k₀ k : Kernel) : Prop :=
  k = k₀ ∧ ∀ i < m, 0 ≤ env.getFree i

theorem SetUp.At.getFree {env : SetUp} {n : Nat} {k₀ k : Kernel} (hAt : env.At n k₀ k)
    (hFree : env.fails (.getFree n) = false) {i : Nat} (hi : i < n + 1) : 0 ≤ env.getFree i := by
  rcases Nat.lt_succ_iff_lt_or_eq.mp hi with hLt | rfl
  · exact hAt.2 i hLt
  · simpa [SetUp.fails] using hFree

/-- One round: it is completed, or left after the failure of one of its calls. -/
theorem round_triple (env : SetUp) (n : Nat) :
    env.script.Triple (fun c => env.At c.obtained (env.left c)) (env.At n (env.completed n))
      (round n) (env.At (n + 1) (env.completed (n + 1))) := by
  have hObtained : env.script.Triple (fun c => env.At c.obtained (env.left c))
      (env.At (n + 1) ((env.completed n).obtained (env.getFree n)))
      [.openBacking n, .openLoop n, .setFd n] (env.At (n + 1) (env.completed (n + 1))) := by
    refine .cons (J := env.At (n + 1) ((((env.completed n).obtained (env.getFree n)).created
        (env.getFree n)).opened (.backing (env.getFree n)))) ?_ ?_ <|
      .cons (J := env.At (n + 1) (((((env.completed n).obtained (env.getFree n)).created
        (env.getFree n)).opened (.backing (env.getFree n))).opened
        (.loop (env.getFree n)))) ?_ ?_ <|
      .cons ?_ ?_ (.nil fun _ h => h)
    · rintro _ ⟨rfl, hNrs⟩ -
      exact ⟨rfl, hNrs⟩
    · rintro _ ⟨rfl, hNrs⟩ -
      exact ⟨rfl, hNrs⟩
    · rintro _ ⟨rfl, hNrs⟩ -
      exact ⟨Kernel.closed_opened _ _, hNrs⟩
    · rintro _ ⟨rfl, hNrs⟩ -
      exact ⟨rfl, hNrs⟩
    · rintro _ ⟨rfl, hNrs⟩ -
      refine ⟨?_, hNrs⟩
      show Kernel.closed (.backing _) (Kernel.opened (.loop _) (Kernel.opened (.backing _) _)) = _
      rw [Kernel.closed_opened_of_ne (by simp), Kernel.closed_opened]
      rfl
    · rintro _ ⟨rfl, hNrs⟩ -
      refine ⟨?_, hNrs⟩
      simp [SetUp.script, SetUp.completed, env.done_succ, Kernel.bind, Kernel.closed,
        Kernel.opened, Kernel.created, Kernel.obtained, Kernel.next]
  refine .cons ?_ ?_ hObtained
  · rintro _ ⟨rfl, hNrs⟩ -
    exact ⟨rfl, hNrs⟩
  · rintro _ hAt hFree
    obtain rfl := hAt.1
    exact ⟨rfl, fun i hi => hAt.getFree hFree hi⟩

theorem setUp_triple (env : SetUp) :
    env.script.Triple (fun c => env.At c.obtained (env.left c)) (env.At 0 (env.completed 0))
      setUpCalls (env.At maxLoop (env.completed maxLoop)) :=
  Script.Triple.loop (I := fun n => env.At n (env.completed n)) fun n _ => round_triple env n

/-- The state in which the loop ends, and the device numbers obtained until then. -/
theorem setUp_held (env : SetUp) :
    env.At ((setUpCalls.find? env.fails).elim maxLoop Call.obtained)
      ((setUpCalls.find? env.fails).elim (env.completed maxLoop) env.left)
      (setUp env (Kernel.start.opened .control)).2 := by
  have hStart : env.At 0 (env.completed 0) (Kernel.start.opened .control) :=
    ⟨rfl, fun i hi => absurd hi (Nat.not_lt_zero i)⟩
  rw [setUp_follows env]
  cases hExit : setUpCalls.find? env.fails with
  | none =>
    have hEnd := (setUp_triple env).of_none hStart hExit
    exact hEnd
  | some c =>
    have hEnd := (setUp_triple env).of_some hStart hExit
    exact hEnd

end DebugCode.Loopy
