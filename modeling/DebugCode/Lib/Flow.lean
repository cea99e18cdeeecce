import Mathlib.Computability.StateTransition
import Mathlib.Logic.Function.Iterate
import Mathlib.Tactic.Common

/-!
# The flow of control in an assembler text

Texts with labels, jumps, calls and returns over instructions of any kind, which change the data
of the machine and nothing else. The text ahead is the program counter, and a jump goes on with
the text from a label. `jne` tests the zero flag of the data.

* `reaches_ops`: instructions in a row are run in one go.
* `reaches_doWhile`: a loop with its test at the end.
* `Runs`: a routine that does `f` to the data and returns, from wherever it is called. Rules for
  routines that fall into a loop, and that end with a jump to another routine.
* `reaches_call`: what a call does is what its routine does.
-/

namespace DebugCode.Lib.Flow

open StateTransition

variable {L ι δ : Type}

/-- A line of a text with labels from `L` and instructions from `ι`. -/
inductive Line (L ι : Type)
  | label (l : L)
  | op (i : ι)
  | jne (l : L)
  | jmp (l : L)
  | call (l : L)
  | ret

/-- What instructions do, and the zero flag. -/
structure Semantics (ι δ : Type) where
  exec : ι → δ → δ
  zf : δ → Bool

structure State (L ι δ : Type) where
  data : δ
  /-- the lines ahead -/
  text : List (Line L ι)
  /-- what the calls that have not returned go on with, the last one first -/
  callers : List (List (Line L ι))

variable [DecidableEq L]

/-- The text from a label on. -/
def textFrom (l : L) : List (Line L ι) → List (Line L ι)
  | [] => []
  | .label m :: is => if m = l then .label m :: is else textFrom l is
  | _ :: is => textFrom l is

variable (S : Semantics ι δ) (p : List (Line L ι))

/-- One step, `none` at a return to nowhere and at the end of the text, where the machine goes on
with whatever is linked behind it. -/
def step (s : State L ι δ) : Option (State L ι δ) :=
  match s.text with
  | [] => none
  | .label _ :: is => some { s with text := is }
  | .op i :: is => some { s with data := S.exec i s.data, text := is }
  | .jne l :: is => some { s with text := if S.zf s.data then is else textFrom l p }
  | .jmp l :: _ => some { s with text := textFrom l p }
  | .call l :: is => some { s with text := textFrom l p, callers := is :: s.callers }
  | .ret :: _ =>
    match s.callers with
    | [] => none
    | c :: cs => some { s with text := c, callers := cs }

/-- The data after instructions in a row. -/
def run (is : List ι) (d : δ) : δ := is.foldl (fun d i => S.exec i d) d

/-- The text of instructions in a row. -/
def ops (is : List ι) : List (Line L ι) := is.map .op

/-- The routine called from outside has returned in the state `t`. -/
def Returns (s t : State L ι δ) : Prop :=
  t ∈ eval (step S p) s ∧ t.text = [] ∧ t.callers = []

variable {S p} {d : δ} {is : List (Line L ι)} {cs : List (List (Line L ι))}

/-! ## Rules -/

theorem reaches_ops (body : List ι) :
    Reaches (step S p) ⟨d, ops body ++ is, cs⟩ ⟨run S body d, is, cs⟩ := by
  induction body generalizing d with
  | nil => exact .refl
  | cons i body ih =>
    have hFirst : step S p ⟨d, ops (i :: body) ++ is, cs⟩ =
        some ⟨S.exec i d, ops body ++ is, cs⟩ := rfl
    exact .head hFirst ih

theorem reaches_label {l : L} : Reaches (step S p) ⟨d, .label l :: is, cs⟩ ⟨d, is, cs⟩ :=
  .single rfl

/-- A round of a loop. -/
theorem reaches_round {l : L} (body : List ι) :
    Reaches (step S p) ⟨d, .label l :: (ops body ++ .jne l :: is), cs⟩
      ⟨run S body d, if S.zf (run S body d) then is else textFrom l p, cs⟩ :=
  reaches_label.trans ((reaches_ops body).tail rfl)

/-- A loop with its test at the end makes the rounds up to the first one that sets the zero
flag. -/
theorem reaches_doWhile {l : L} {body : List ι} {n : ℕ}
    (hLoop : textFrom l p = .label l :: (ops body ++ .jne l :: is))
    (hRounds : ∀ k < n, S.zf ((run S body)^[k + 1] d) = false)
    (hLast : S.zf ((run S body)^[n + 1] d) = true) :
    Reaches (step S p) ⟨d, textFrom l p, cs⟩ ⟨(run S body)^[n + 1] d, is, cs⟩ := by
  have hRound (e : δ) : Reaches (step S p) ⟨e, textFrom l p, cs⟩
      ⟨run S body e, if S.zf (run S body e) then is else textFrom l p, cs⟩ := by
    rw [hLoop]
    have hOnce : Reaches (step S p) ⟨e, .label l :: (ops body ++ .jne l :: is), cs⟩ _ :=
      reaches_round body
    rwa [hLoop] at hOnce
  induction n generalizing d with
  | zero =>
    have hSet : S.zf (run S body d) = true := hLast
    have hEnd := hRound d
    rwa [hSet] at hEnd
  | succ n ih =>
    have hClear : S.zf (run S body d) = false := hRounds 0 n.succ_pos
    have hFirst := hRound d
    rw [hClear] at hFirst
    exact hFirst.trans (ih (fun k hk => hRounds (k + 1) (Nat.succ_lt_succ hk)) hLast)

/-! ## Routines -/

variable (S p)

/-- The routine at `l` does `f` to the data and returns to its caller. -/
def Runs (l : L) (f : δ → δ) : Prop :=
  ∀ d c cs, Reaches (step S p) ⟨d, textFrom l p, c :: cs⟩ ⟨f d, c, cs⟩

variable {S p} {l m : L} {f g : δ → δ}

/-- A call does what its routine does. -/
theorem reaches_call (hRuns : Runs S p l f) :
    Reaches (step S p) ⟨d, .call l :: is, cs⟩ ⟨f d, is, cs⟩ :=
  .head rfl (hRuns d is cs)

/-- A routine that falls into another text. -/
theorem Runs.of_reaches
    (h : ∀ d cs, Reaches (step S p) ⟨d, textFrom l p, cs⟩ ⟨f d, .ret :: is, cs⟩) :
    Runs S p l f := fun d c cs => (h d (c :: cs)).tail rfl

/-- A routine that ends with a jump to another one. -/
theorem Runs.of_jmp {body : List ι}
    (hText : textFrom l p = .label l :: (ops body ++ .jmp m :: is)) (hRuns : Runs S p m g) :
    Runs S p l (fun d => g (run S body d)) := by
  intro d c cs
  rw [hText]
  have hJump : Reaches (step S p) ⟨run S body d, .jmp m :: is, c :: cs⟩
      ⟨run S body d, textFrom m p, c :: cs⟩ := .single rfl
  exact reaches_label.trans ((reaches_ops body).trans (hJump.trans (hRuns _ c cs)))

/-- A routine called from outside. -/
theorem Runs.returns (hRuns : Runs S p l f) (d : δ) :
    Returns S p ⟨d, textFrom l p, [[]]⟩ ⟨f d, [], []⟩ :=
  ⟨mem_eval.mpr ⟨hRuns d [] [], rfl⟩, rfl, rfl⟩

end DebugCode.Lib.Flow
