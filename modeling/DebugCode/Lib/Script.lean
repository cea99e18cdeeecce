import Mathlib.Data.List.Basic

/-!
# Programs that may stop early, and scripts of calls that may fail

A program changes a state and may stop with an exit, as C code does with `return` or `break`
in nested loops. A script is a list of calls, each of which either succeeds and changes the
state, or fails, is cleaned up after, and ends the script. A program whose statements follow a
script stops at the first call that fails.

* `Script.run_exit`: a script stops at the first of its calls that fails.
* `Script.Triple`: pre- and postconditions of a script, with a third condition for the state in
  which each call may leave it; `Triple.append` and `Triple.loop` put them together.
* `Script.Follows`: a program that does what a script does; `Follows.block` and
  `Follows.loop` put programs and their scripts together, and `Follows.call` the script of a
  program that is called into the one of its caller.
-/

namespace DebugCode.Lib

/-- A program on states `σ`: `some e` is an early exit. -/
def Prog (ε σ : Type) : Type := σ → Option ε × σ

namespace Prog

variable {ε σ : Type}

/-- A statement that does not fail. -/
def act (f : σ → σ) : Prog ε σ := fun s => (none, f s)

/-- Leave the program. -/
def stop (e : ε) : Prog ε σ := fun s => (some e, s)

def seq (p q : Prog ε σ) : Prog ε σ := fun s =>
  match p s with
  | (none, s') => q s'
  | (some e, s') => (some e, s')

/-- Statements one after the other. -/
def block : List (Prog ε σ) → Prog ε σ
  | [] => act id
  | p :: ps => seq p (block ps)

/-- `if (b) p` -/
def when (b : Bool) (p : Prog ε σ) : Prog ε σ := if b then p else act id

/-- `for (i = 0; i < n; i++) body` -/
def loop (n : Nat) (body : Nat → Prog ε σ) : Prog ε σ := block ((List.range n).map body)

/-- A call of a program that handles its exits: `none` goes on. -/
def call {ε' : Type} (handle : ε → Option ε') (p : Prog ε σ) : Prog ε' σ :=
  fun s => ((p s).1.bind handle, (p s).2)

theorem seq_of_none {p q : Prog ε σ} {s s' : σ} (hFirst : p s = (none, s')) :
    seq p q s = q s' := by
  simp only [seq, hFirst]

theorem seq_of_some {p q : Prog ε σ} {s s' : σ} {e : ε} (hFirst : p s = (some e, s')) :
    seq p q s = (some e, s') := by
  simp only [seq, hFirst]

theorem block_singleton (p : Prog ε σ) (s : σ) : block [p] s = p s := by
  cases hEnd : p s with
  | mk e s' =>
    cases e with
    | none => exact seq_of_none hEnd
    | some e => exact seq_of_some hEnd

theorem when_apply (b : Bool) (p : Prog ε σ) (s : σ) :
    when b p s = if b then p s else (none, s) := by
  cases b <;> rfl

/-- The guard of a statement decides which statements are left. -/
theorem block_when (b : Bool) (p : Prog ε σ) (ps : List (Prog ε σ)) (s : σ) :
    block (when b p :: ps) s = if b then block (p :: ps) s else block ps s := by
  cases b <;> rfl

end Prog

/-- Calls `κ` that may fail: what a successful call does, and what is done after a failure
before the script ends. -/
structure Script (κ σ : Type) where
  fails : κ → Bool
  ok : κ → σ → σ
  bail : κ → σ → σ

namespace Script

variable {κ σ : Type} (S : Script κ σ)

/-- The calls in turn: the call that failed, if any, and the state. -/
def run : List κ → σ → Option κ × σ
  | [], s => (none, s)
  | c :: cs, s => if S.fails c then (some c, S.bail c s) else run cs (S.ok c s)

variable {S}

theorem run_fails {c : κ} (hFails : S.fails c = true) (cs : List κ) (s : σ) :
    S.run (c :: cs) s = (some c, S.bail c s) := by
  rw [run, if_pos hFails]

theorem run_ok {c : κ} (hFails : S.fails c = false) (cs : List κ) (s : σ) :
    S.run (c :: cs) s = S.run cs (S.ok c s) := by
  rw [run, if_neg (by simp [hFails])]

theorem run_append (cs ds : List κ) (s : σ) :
    S.run (cs ++ ds) s = (S.run cs s).1.elim (S.run ds (S.run cs s).2)
      fun c => (some c, (S.run cs s).2) := by
  induction cs generalizing s with
  | nil => rfl
  | cons c cs ih =>
    rw [List.cons_append]
    cases hFails : S.fails c with
    | true =>
      rw [run_fails hFails, run_fails hFails]
      rfl
    | false =>
      rw [run_ok hFails, run_ok hFails]
      exact ih (S.ok c s)

/-- A script stops at the first of its calls that fails. -/
theorem run_exit (cs : List κ) (s : σ) : (S.run cs s).1 = cs.find? S.fails := by
  induction cs generalizing s with
  | nil => rfl
  | cons c cs ih =>
    cases hFails : S.fails c with
    | true => rw [run_fails hFails, List.find?_cons_of_pos hFails]
    | false => rw [run_ok hFails, List.find?_cons_of_neg (by simp [hFails]), ih]

section

variable {κ' : Type} {T : Script κ' σ} {e : κ → κ'}

/-- The calls of `S` are calls of `T`, under the names `e`. -/
structure Embeds (S : Script κ σ) (T : Script κ' σ) (e : κ → κ') : Prop where
  fails : ∀ c, T.fails (e c) = S.fails c
  ok : ∀ c, T.ok (e c) = S.ok c
  bail : ∀ c, T.bail (e c) = S.bail c

theorem Embeds.run (hEmbeds : S.Embeds T e) (cs : List κ) (s : σ) :
    T.run (cs.map e) s = ((S.run cs s).1.map e, (S.run cs s).2) := by
  induction cs generalizing s with
  | nil => rfl
  | cons c cs ih =>
    rw [List.map_cons]
    cases hFails : S.fails c with
    | true => rw [run_fails ((hEmbeds.fails c).trans hFails), run_fails hFails, hEmbeds.bail c,
        Option.map_some]
    | false => rw [run_ok ((hEmbeds.fails c).trans hFails), run_ok hFails, hEmbeds.ok c, ih]

end

/-! ## Pre- and postconditions -/

/-- From a state with `I`, the script ends in one with `J`, or leaves one with `E c` after the
failure of call `c`. -/
def Triple (S : Script κ σ) (E : κ → σ → Prop) (I : σ → Prop) (cs : List κ) (J : σ → Prop) :
    Prop :=
  ∀ s, I s → (S.run cs s).1.elim (J (S.run cs s).2) fun c => E c (S.run cs s).2

namespace Triple

variable {E : κ → σ → Prop} {I J K : σ → Prop}

theorem nil (hWeaken : ∀ s, I s → J s) : S.Triple E I [] J := hWeaken

theorem cons {c : κ} {cs : List κ} (hFails : ∀ s, I s → S.fails c = true → E c (S.bail c s))
    (hOk : ∀ s, I s → S.fails c = false → J (S.ok c s)) (hRest : S.Triple E J cs K) :
    S.Triple E I (c :: cs) K := by
  intro s hI
  cases hCall : S.fails c with
  | true =>
    rw [run_fails hCall]
    exact hFails s hI hCall
  | false =>
    rw [run_ok hCall]
    exact hRest (S.ok c s) (hOk s hI hCall)

theorem append {cs ds : List κ} (hFirst : S.Triple E I cs J) (hSecond : S.Triple E J ds K) :
    S.Triple E I (cs ++ ds) K := by
  intro s hI
  have hMiddle := hFirst s hI
  rw [run_append]
  cases hExit : (S.run cs s).1 with
  | none =>
    rw [hExit] at hMiddle
    exact hSecond _ hMiddle
  | some c =>
    rw [hExit] at hMiddle
    exact hMiddle

theorem weaken {cs : List κ} (hTriple : S.Triple E I cs J) (hWeaken : ∀ s, J s → K s) :
    S.Triple E I cs K := by
  intro s hI
  have hEnd := hTriple s hI
  cases hExit : (S.run cs s).1 with
  | none =>
    rw [hExit] at hEnd
    exact hWeaken _ hEnd
  | some c =>
    rw [hExit] at hEnd
    exact hEnd

/-- The rule for loops: one round leads from the invariant at `j` to the one at `j + 1`. -/
theorem loop {I : Nat → σ → Prop} {body : Nat → List κ} {n : Nat}
    (hBody : ∀ j < n, S.Triple E (I j) (body j) (I (j + 1))) :
    S.Triple E (I 0) ((List.range n).flatMap body) (I n) := by
  induction n with
  | zero => exact nil fun _ h => h
  | succ n ih =>
    rw [List.range_succ, List.flatMap_append, List.flatMap_singleton]
    exact append (ih fun j hj => hBody j (by omega)) (hBody n (by omega))

/-- The rule for loops whose rounds are single calls. -/
theorem loop_map {I : Nat → σ → Prop} {call : Nat → κ} {n : Nat}
    (hFails : ∀ i < n, ∀ s, I i s → S.fails (call i) = true → E (call i) (S.bail (call i) s))
    (hOk : ∀ i < n, ∀ s, I i s → S.fails (call i) = false → I (i + 1) (S.ok (call i) s)) :
    S.Triple E (I 0) ((List.range n).map call) (I n) := by
  rw [List.map_eq_flatMap]
  exact loop fun i hi => cons (hFails i hi) (hOk i hi) (nil fun _ h => h)

/-- Calls that all keep one condition. -/
theorem keep {cs : List κ} (hFails : ∀ c ∈ cs, ∀ s, I s → S.fails c = true → E c (S.bail c s))
    (hOk : ∀ c ∈ cs, ∀ s, I s → I (S.ok c s)) : S.Triple E I cs I := by
  induction cs with
  | nil => exact nil fun _ h => h
  | cons c cs ih =>
    rw [List.forall_mem_cons] at hFails hOk
    exact cons hFails.1 (fun s hI _ => hOk.1 s hI) (ih hFails.2 hOk.2)

/-- A script without failures ends with its postcondition. -/
theorem of_none {cs : List κ} {s : σ} (hTriple : S.Triple E I cs J) (hI : I s)
    (hNone : cs.find? S.fails = none) : J (S.run cs s).2 := by
  have hEnd := hTriple s hI
  rw [run_exit, hNone] at hEnd
  exact hEnd

theorem of_some {cs : List κ} {s : σ} {c : κ} (hTriple : S.Triple E I cs J) (hI : I s)
    (hSome : cs.find? S.fails = some c) : E c (S.run cs s).2 := by
  have hEnd := hTriple s hI
  rw [run_exit, hSome] at hEnd
  exact hEnd

end Triple

/-! ## Programs that follow a script -/

/-- The program does what the script does, and leaves with an exit of its own for each call. -/
def Follows {ε : Type} (S : Script κ σ) (exit : κ → ε) (cs : List κ) (p : Prog ε σ) : Prop :=
  ∀ s, p s = ((S.run cs s).1.map exit, (S.run cs s).2)

namespace Follows

variable {ε : Type} {exit : κ → ε}

theorem nil : S.Follows exit [] (Prog.block []) := fun _ => rfl

/-- A program that tests whether a call has failed. -/
theorem guard {c : κ} {p q r : Prog ε σ} {b : Bool} (hFails : S.fails c = b)
    (hTest : ∀ s, p s = if b then q s else r s)
    (hBail : ∀ s, q s = (some (exit c), S.bail c s)) (hOk : ∀ s, r s = (none, S.ok c s)) :
    S.Follows exit [c] p := by
  intro s
  rw [hTest]
  cases b with
  | true =>
    rw [run_fails hFails, if_pos rfl]
    exact hBail s
  | false =>
    rw [run_ok hFails, if_neg Bool.false_ne_true]
    exact hOk s

/-- A test with an early exit, and the statements up to the next test. -/
theorem test {c : κ} {ds : List κ} {b : Bool} {q : Prog ε σ} {ps qs : List (Prog ε σ)}
    (hFails : S.fails c = b) (hBail : ∀ s, q s = (some (exit c), S.bail c s))
    (hOk : ∀ s, Prog.block ps s = Prog.block qs (S.ok c s))
    (hRest : S.Follows exit ds (Prog.block qs)) :
    S.Follows exit (c :: ds) (Prog.block (Prog.when b q :: ps)) := by
  intro s
  rw [Prog.block_when]
  cases b with
  | true =>
    rw [run_fails hFails, if_pos rfl]
    exact Prog.seq_of_some (hBail s)
  | false =>
    rw [run_ok hFails, if_neg Bool.false_ne_true, hOk]
    exact hRest (S.ok c s)

/-- A statement that cannot fail. -/
theorem act {c : κ} {f : σ → σ} (hFails : S.fails c = false) (hOk : ∀ s, f s = S.ok c s) :
    S.Follows exit [c] (Prog.act f) := by
  intro s
  rw [run_ok hFails]
  exact congrArg (Prod.mk none) (hOk s)

theorem append {cs ds : List κ} {p : Prog ε σ} {ps : List (Prog ε σ)}
    (hFirst : S.Follows exit cs p) (hRest : S.Follows exit ds (Prog.block ps)) :
    S.Follows exit (cs ++ ds) (Prog.block (p :: ps)) := by
  intro s
  have hHere := hFirst s
  rw [run_append]
  show Prog.seq p (Prog.block ps) s = _
  cases hExit : (S.run cs s).1 with
  | none =>
    rw [hExit] at hHere
    rw [Prog.seq_of_none hHere]
    exact hRest _
  | some c =>
    rw [hExit] at hHere
    rw [Prog.seq_of_some hHere]
    rfl

theorem cons {c : κ} {ds : List κ} {p : Prog ε σ} {ps : List (Prog ε σ)}
    (hFirst : S.Follows exit [c] p) (hRest : S.Follows exit ds (Prog.block ps)) :
    S.Follows exit (c :: ds) (Prog.block (p :: ps)) := hFirst.append hRest

theorem block {css : Nat → List κ} {body : Nat → Prog ε σ} (is : List Nat)
    (hBody : ∀ i, S.Follows exit (css i) (body i)) :
    S.Follows exit (is.flatMap css) (Prog.block (is.map body)) := by
  induction is with
  | nil => exact nil
  | cons i is ih =>
    rw [List.flatMap_cons, List.map_cons]
    exact (hBody i).append ih

/-- A loop follows the scripts of its rounds. -/
theorem loop {css : Nat → List κ} {body : Nat → Prog ε σ} (n : Nat)
    (hBody : ∀ i, S.Follows exit (css i) (body i)) :
    S.Follows exit ((List.range n).flatMap css) (Prog.loop n body) :=
  block (List.range n) hBody

theorem loop_map {call : Nat → κ} {body : Nat → Prog ε σ} (n : Nat)
    (hBody : ∀ i, S.Follows exit [call i] (body i)) :
    S.Follows exit ((List.range n).map call) (Prog.loop n body) := by
  rw [List.map_eq_flatMap]
  exact loop n hBody

/-- A call of a program whose exits are all handled by leaving. -/
theorem call {κ' ε' : Type} {T : Script κ' σ} {e : κ → κ'} {handle : ε → Option ε'}
    {exit' : κ' → ε'} {cs : List κ} {p : Prog ε σ} (hFollows : S.Follows exit cs p)
    (hEmbeds : S.Embeds T e) (hHandle : ∀ c, handle (exit c) = some (exit' (e c))) :
    T.Follows exit' (cs.map e) (Prog.call handle p) := by
  intro s
  rw [Prog.call, hFollows s, hEmbeds.run]
  cases (S.run cs s).1 with
  | none => rfl
  | some c => exact congrArg (Prod.mk · (S.run cs s).2) (hHandle c)

theorem when {cs : List κ} {p : Prog ε σ} (b : Bool) (hFollows : S.Follows exit cs p) :
    S.Follows exit (if b then cs else []) (Prog.when b p) := by
  cases b with
  | true => exact hFollows
  | false => exact nil

end Follows

end Script

end DebugCode.Lib
