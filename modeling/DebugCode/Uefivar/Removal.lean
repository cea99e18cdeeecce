import DebugCode.Uefivar.Variables

/-!
# Removing a variable by name

The prefix test and the comparison with the name put together again single out the entries
whose variable is the one named, because the kernel appends the GUID of the very record
that is read. So the loop writes the records of these entries, one after the other.

* `delEntries_eq_writeRecords`: the loop refines the writing of those records.
* `uefiVarDel_deletes_iff`: the named variables are removed, and the message is right,
  exactly when `scandir` does not return an empty list: then `uefi_var_del` returns early.
-/

namespace DebugCode.Uefivar

open Lib

/-- The kernel names an entry by its variable, `-` and the GUID of its record. -/
def KernelNamed (files : CString → RawVar) (vname : Dirent → CString)
    (names : List Dirent) : Prop :=
  ∀ d ∈ names, ∀ bs, readRecord files d = some bs →
    d.dName = vname d ++ CString.literal "-" ++ guidToStr (UefiVar.guid (ofBytes bs)) 37

/-- The record to be written for an entry. -/
def target (files : CString → RawVar) (vname : Dirent → CString) (varname : CString)
    (d : Dirent) : Option (List UInt8) :=
  if vname d = varname then readRecord files d else none

/-- The records are written one after the other, up to the first time `del_var` cannot be
opened. -/
def writeRecords (delVar : Nat → Option Int) : List (List UInt8) → Deletion → Deletion
  | [], run => run
  | bs :: records, run =>
    match delVar run.writes.length with
    | none => run.cannotOpen
    | some n => writeRecords delVar records (run.wrote bs n)

/-! ## Names -/

/-- The name put together is that of the entry exactly when the variable is: a name that
did not fit into the buffer is longer than any entry's. -/
theorem strcmp_tmpname_iff {d : Dirent} {v dash guidStr : CString} (varname : CString)
    (hName : d.dName = v ++ dash ++ guidStr) :
    strcmp (snprintf (513 + 38) (varname ++ dash ++ guidStr)) d.dName = 0 ↔ v = varname := by
  have hShort := d.length_le
  rw [strcmp_eq_zero_iff]
  constructor
  · intro hSame
    by_cases hFits : (varname ++ dash ++ guidStr).strlen < 513 + 38
    · rw [snprintf_of_fits hFits, hName, CString.append_assoc, CString.append_assoc] at hSame
      exact (CString.append_right_cancel hSame).symm
    · have hLength := congrArg CString.strlen hSame
      simp only [snprintf, CString.strlen, CString.bytes_take, List.length_take] at hLength
      unfold CString.strlen at hFits hShort
      omega
  · intro hSame
    subst hSame
    rw [← hName]
    exact snprintf_of_fits (by omega)

/-! ## The loop -/

section

variable {files : CString → RawVar} (delVar : Nat → Option Int) {vname : Dirent → CString}
  (varname : CString)

theorem delEntries_unread {d : Dirent} (hRead : readRecord files d = none)
    (names : List Dirent) (var : Memory) (run : Deletion) :
    ∃ var', delEntries files delVar varname (d :: names) var run =
      delEntries files delVar varname names var' run := by
  rw [delEntries]
  split
  · have hStatus := uefiGetVariable_unread hRead var
    cases hGet : uefiGetVariable files d.dName var with
    | mk status var' =>
      rw [hGet] at hStatus
      obtain rfl : status = .error := hStatus
      exact ⟨var', rfl⟩
  · exact ⟨var, rfl⟩

/-- An entry that is read, with the outcome of the two comparisons. -/
theorem uefiGetVariable_named {d : Dirent} {bs : List UInt8} (hRead : readRecord files d = some bs)
    (hNamed : d.dName =
      vname d ++ CString.literal "-" ++ guidToStr (UefiVar.guid (ofBytes bs)) 37) (var : Memory) :
    ∃ var', uefiGetVariable files d.dName var = (.ok, var') ∧ recordBytes var' = bs ∧
      (strcmp (snprintf (513 + 38) (varname ++ CString.literal "-" ++
        guidToStr (UefiVar.guid var') 37)) d.dName = 0 ↔ vname d = varname) := by
  obtain ⟨var', hGet, hBytes⟩ := uefiGetVariable_readRecord hRead var
  have hGuid : UefiVar.guid var' = UefiVar.guid (ofBytes bs) :=
    guid_congr (hBytes.trans (recordBytes_ofBytes (readRecord_length hRead)).symm)
  rw [← hGuid] at hNamed
  exact ⟨var', hGet, hBytes, strcmp_tmpname_iff varname hNamed⟩

theorem delEntries_other {d : Dirent} {bs : List UInt8} (hRead : readRecord files d = some bs)
    (hNamed : d.dName =
      vname d ++ CString.literal "-" ++ guidToStr (UefiVar.guid (ofBytes bs)) 37)
    (hOther : vname d ≠ varname) (names : List Dirent) (var : Memory) (run : Deletion) :
    ∃ var', delEntries files delVar varname (d :: names) var run =
      delEntries files delVar varname names var' run := by
  obtain ⟨var', hGet, -, hCompare⟩ := uefiGetVariable_named varname hRead hNamed var
  rw [delEntries]
  split
  · refine ⟨var', ?_⟩
    rw [hGet]
    exact if_neg fun hEqual => hOther (hCompare.mp hEqual)
  · exact ⟨var, rfl⟩

/-- The step lemma: the record of the variable named is written. -/
theorem delEntries_target {d : Dirent} {bs : List UInt8} (hRead : readRecord files d = some bs)
    (hNamed : d.dName =
      vname d ++ CString.literal "-" ++ guidToStr (UefiVar.guid (ofBytes bs)) 37)
    (hSame : vname d = varname) (names : List Dirent) (var : Memory) (run : Deletion) :
    ∃ var', delEntries files delVar varname (d :: names) var run =
      (delVar run.writes.length).elim run.cannotOpen fun n =>
        delEntries files delVar varname names var' (run.wrote bs n) := by
  obtain ⟨var', hGet, hBytes, hCompare⟩ := uefiGetVariable_named varname hRead hNamed var
  have hPrefix : strncmp d.dName varname varname.strlen = 0 := by
    rw [hNamed, hSame, CString.append_assoc]
    exact strncmp_append _ _
  refine ⟨var', ?_⟩
  rw [delEntries, if_pos hPrefix, hGet]
  apply (if_pos (hCompare.mpr hSame)).trans
  rw [hBytes]
  cases delVar run.writes.length with
  | none => exact Eq.refl run.cannotOpen
  | some n => exact Eq.refl (delEntries files delVar varname names var' (run.wrote bs n))

/-- The run lemma: the loop writes the records of the targets. -/
theorem delEntries_eq_writeRecords {names : List Dirent} (hNamed : KernelNamed files vname names)
    (var : Memory) (run : Deletion) : delEntries files delVar varname names var run =
      writeRecords delVar (names.filterMap (target files vname varname)) run := by
  induction names generalizing var run with
  | nil => rfl
  | cons d names ih =>
    have hRest : KernelNamed files vname names :=
      fun e he => hNamed e (List.mem_cons_of_mem _ he)
    cases hRead : readRecord files d with
    | none =>
      obtain ⟨var', hStep⟩ := delEntries_unread delVar varname hRead names var run
      have hTarget : target files vname varname d = none := by
        rw [target, hRead, ite_self]
      rw [hStep, ih hRest, List.filterMap_cons, hTarget]
    | some bs =>
      have hName := hNamed d List.mem_cons_self bs hRead
      by_cases hSame : vname d = varname
      · obtain ⟨var', hStep⟩ := delEntries_target delVar varname hRead hName hSame names var run
        have hTarget : target files vname varname d = some bs := by
          rw [target, if_pos hSame, hRead]
        rw [hStep, List.filterMap_cons, hTarget, writeRecords]
        cases delVar run.writes.length with
        | none => rfl
        | some n => exact ih hRest var' _
      · obtain ⟨var', hStep⟩ := delEntries_other delVar varname hRead hName hSame names var run
        have hTarget : target files vname varname d = none := by
          rw [target, if_neg hSame]
        rw [hStep, ih hRest, List.filterMap_cons, hTarget]

end

/-! ## The records written -/

/-- What is known after writing `records`, when the run began with nothing written. -/
structure WritesOk (delVar : Nat → Option Int) (records : List (List UInt8)) (run : Deletion) :
    Prop where
  attempted : run.writes.map Prod.fst <+: records
  complete : run.exits = false → run.writes.map Prod.fst = records
  results : ∀ i w, run.writes[i]? = some w → delVar i = some w.2
  exits : run.exits = true → run.writes.length < records.length ∧ delVar run.writes.length = none
  deleted : run.deleted = true ↔ ∃ w ∈ run.writes, 0 < w.2
  stderr : run.stderr = if run.exits then
    ascii "Cannot open /sys/firmware/efi/vars/del_var\n" else []

/-- A record more is written. -/
theorem WritesOk.wrote {delVar : Nat → Option Int} {done : List (List UInt8)} {run : Deletion}
    (h : WritesOk delVar done run) (hOn : run.exits = false) (bs : List UInt8) {n : Int}
    (hOpen : delVar run.writes.length = some n) :
    WritesOk delVar (done ++ [bs]) (run.wrote bs n) := by
  have hRecords : (run.wrote bs n).writes.map Prod.fst = done ++ [bs] := by
    rw [Deletion.wrote, List.map_append, h.complete hOn]
    rfl
  refine ⟨hRecords ▸ List.prefix_refl _, fun _ => hRecords, ?_, ?_, ?_, h.stderr⟩
  · intro i w hw
    rw [Deletion.wrote, List.getElem?_append] at hw
    split at hw
    · exact h.results i w hw
    · rename_i hBehind
      obtain ⟨hLast, rfl⟩ := List.getElem?_eq_some_iff.mp hw
      rw [List.length_singleton] at hLast
      obtain rfl : i = run.writes.length := by omega
      simpa using hOpen
  · intro hExits
    rw [Deletion.wrote, hOn] at hExits
    cases hExits
  · simp only [Deletion.wrote, Bool.or_eq_true, h.deleted, decide_eq_true_eq, List.mem_append,
      List.mem_singleton]
    constructor
    · intro hSome
      rcases hSome with ⟨w, hw, hPos⟩ | hPos
      · exact ⟨w, Or.inl hw, hPos⟩
      · exact ⟨(bs, n), Or.inr rfl, hPos⟩
    · intro hSome
      obtain ⟨w, hw | rfl, hPos⟩ := hSome
      · exact Or.inl ⟨w, hw, hPos⟩
      · exact Or.inr hPos

/-- The induction carries the records written so far. -/
theorem writeRecords_ok (delVar : Nat → Option Int) (records : List (List UInt8))
    {done : List (List UInt8)} {run : Deletion} (h : WritesOk delVar done run)
    (hOn : run.exits = false) :
    WritesOk delVar (done ++ records) (writeRecords delVar records run) := by
  induction records generalizing done run with
  | nil =>
    rw [List.append_nil]
    exact h
  | cons bs records ih =>
    have hDone := h.complete hOn
    have hStderr := h.stderr
    rw [hOn] at hStderr
    rw [writeRecords]
    cases hOpen : delVar run.writes.length with
    | none =>
      refine ⟨?_, ?_, h.results, fun _ => ⟨?_, hOpen⟩, h.deleted, ?_⟩
      · exact hDone ▸ List.prefix_append _ _
      · intro hContinues
        cases hContinues
      · have hCount := congrArg List.length hDone
        rw [List.length_map] at hCount
        show run.writes.length < _
        rw [List.length_append, List.length_cons]
        omega
      · show run.stderr ++ ascii _ = ascii _
        rw [hStderr]
        rfl
    | some n =>
      have hAll := ih (h.wrote hOn bs hOpen) hOn
      rwa [List.append_assoc, List.singleton_append] at hAll

theorem cannotOpen_ne_noSuchVariable (varname : CString) :
    ascii "Cannot open /sys/firmware/efi/vars/del_var\n" ≠ noSuchVariable varname := by
  intro h
  have hHead : some (67 : UInt8) = some 78 := congrArg List.head? h
  cases hHead

theorem noSuchVariable_ne_nil (varname : CString) : noSuchVariable varname ≠ [] := by
  simp [noSuchVariable, ascii]

/-- The records of the targets are written in order, with the results that `del_var` gives. The
program exits only where it cannot open `del_var` for the next target; otherwise all of them are
written, and the message is printed when no write succeeded. -/
structure DeletesNamed (delVar : Nat → Option Int) (varname : CString)
    (targets : List (List UInt8)) (run : Deletion) : Prop where
  attempted : run.writes.map Prod.fst <+: targets
  complete : run.exits = false → run.writes.map Prod.fst = targets
  results : ∀ i w, run.writes[i]? = some w → delVar i = some w.2
  exits : run.exits = true → run.writes.length < targets.length ∧ delVar run.writes.length = none
  message : run.stderr = noSuchVariable varname ↔
    run.exits = false ∧ ∀ w ∈ run.writes, w.2 ≤ 0

theorem deletesNamed_of_writesOk {delVar : Nat → Option Int} (varname : CString)
    {targets : List (List UInt8)} {run : Deletion} (h : WritesOk delVar targets run) :
    DeletesNamed delVar varname targets (if run.exits then run else if run.deleted then run
      else { run with stderr := run.stderr ++ noSuchVariable varname }) := by
  have hStderr := h.stderr
  cases hExits : run.exits with
  | true =>
    rw [hExits] at hStderr
    simp only [if_true]
    refine ⟨h.attempted, h.complete, h.results, h.exits, ?_⟩
    rw [hStderr, hExits]
    simpa using cannotOpen_ne_noSuchVariable varname
  | false =>
    rw [hExits] at hStderr
    cases hDeleted : run.deleted with
    | true =>
      obtain ⟨w, hw, hPos⟩ := h.deleted.mp hDeleted
      refine ⟨h.attempted, h.complete, h.results, h.exits, ?_⟩
      constructor
      · intro hPrinted
        exact absurd (hPrinted.symm.trans hStderr) (noSuchVariable_ne_nil varname)
      · intro hNone
        exact absurd (hNone.2 w hw) (by omega)
    | false =>
      rw [if_neg Bool.false_ne_true, if_neg Bool.false_ne_true]
      refine ⟨h.attempted, fun _ => h.complete hExits, h.results,
        fun hOff => absurd hOff Bool.false_ne_true, ?_⟩
      constructor
      · intro _
        refine ⟨rfl, ?_⟩
        intro w hw
        by_contra hPos
        have hOne := h.deleted.mpr ⟨w, hw, by omega⟩
        rw [hDeleted] at hOne
        cases hOne
      · intro _
        show run.stderr ++ noSuchVariable varname = noSuchVariable varname
        rw [hStderr]
        rfl

/-! ## The whole function -/

section

variable {files : CString → RawVar} (delVar : Nat → Option Int) {vname : Dirent → CString}
  (varname : CString) (entries : Option (List Dirent)) (var : Memory)

theorem uefiVarDel_deletes (hNamed : KernelNamed files vname ((scandir entries).getD []))
    (hSome : scandir entries ≠ some []) :
    DeletesNamed delVar varname
      (((scandir entries).getD []).filterMap (target files vname varname))
      (uefiVarDel files delVar entries var varname) := by
  have hStart : WritesOk delVar [] ⟨[], false, [], false⟩ :=
    ⟨List.prefix_refl _, fun _ => rfl, fun i w hw => by simp at hw, fun h => (nomatch h), by simp,
      rfl⟩
  have hRun := writeRecords_ok delVar
    (((scandir entries).getD []).filterMap (target files vname varname)) hStart rfl
  rw [List.nil_append, ← delEntries_eq_writeRecords delVar varname hNamed var] at hRun
  unfold uefiVarDel
  split
  · rename_i hEmpty
    exact absurd hEmpty hSome
  · exact deletesNamed_of_writesOk varname hRun

/-- With an empty directory nothing is printed. -/
theorem uefiVarDel_empty (hEmpty : scandir entries = some []) :
    ¬ DeletesNamed delVar varname
      (((scandir entries).getD []).filterMap (target files vname varname))
      (uefiVarDel files delVar entries var varname) := by
  intro h
  have hRun : uefiVarDel files delVar entries var varname = ⟨[], false, [], false⟩ := by
    unfold uefiVarDel
    rw [hEmpty]
  have hMessage := h.message
  rw [hRun] at hMessage
  exact noSuchVariable_ne_nil varname (hMessage.mpr ⟨rfl, by simp⟩).symm

/-- The named variables are removed, with the right message, exactly when `scandir` does not
return an empty list. -/
theorem uefiVarDel_deletes_iff (hNamed : KernelNamed files vname ((scandir entries).getD [])) :
    DeletesNamed delVar varname
      (((scandir entries).getD []).filterMap (target files vname varname))
      (uefiVarDel files delVar entries var varname) ↔ scandir entries ≠ some [] := by
  constructor
  · intro h hEmpty
    exact uefiVarDel_empty delVar varname entries var hEmpty h
  · intro hSome
    exact uefiVarDel_deletes delVar varname entries var hNamed hSome

end

/-- The name without `-` and the 36 characters of the GUID. -/
def shortName (d : Dirent) : CString := d.dName.take (d.dName.strlen - 37)

theorem twoEntries_named :
    KernelNamed twoFiles shortName ((scandir twoEntries).getD []) := by
  rw [scandir_twoEntries]
  intro d hd bs hRead
  have hDelivered := (Option.filter_eq_some_iff.mp hRead).1
  rcases List.mem_cons.mp hd with rfl | hd
  · rw [delivered_readableEntry] at hDelivered
    obtain rfl := Option.some.inj hDelivered
    have hGuid : UefiVar.guid (ofBytes (recordBytes setRecord)) = fun _ => 0 := by
      rw [guid_congr (recordBytes_ofBytes (Memory.load_length _ _ _))]
      exact guid_uefiVarRecord _ _ _ _
    rw [hGuid]
    decide
  · obtain rfl := List.mem_singleton.mp hd
    rw [delivered_closedEntry] at hDelivered
    cases hDelivered

theorem uefiVarDel_deletes_two :
    DeletesNamed (fun _ => some 2084) (CString.literal "A")
      (((scandir twoEntries).getD []).filterMap
        (target twoFiles shortName (CString.literal "A")))
      (uefiVarDel twoFiles (fun _ => some 2084) twoEntries Memory.zero (CString.literal "A")) ↔
      scandir twoEntries ≠ some [] :=
  uefiVarDel_deletes_iff (fun _ => some 2084) (CString.literal "A") twoEntries Memory.zero
    twoEntries_named

/-- Nothing is said about the variable `A` of an empty directory. -/
theorem uefiVarDel_silent : ¬ ∀ (files : CString → RawVar) (delVar : Nat → Option Int)
    (vname : Dirent → CString) (varname : CString) (entries : Option (List Dirent))
    (var : Memory), KernelNamed files vname ((scandir entries).getD []) →
      DeletesNamed delVar varname
        (((scandir entries).getD []).filterMap (target files vname varname))
        (uefiVarDel files delVar entries var varname) := by
  intro h
  apply uefiVarDel_empty (fun _ => some 2084) (CString.literal "A") (some []) Memory.zero rfl
  apply h twoFiles (fun _ => some 2084) shortName
  intro d hd
  cases hd

end DebugCode.Uefivar
