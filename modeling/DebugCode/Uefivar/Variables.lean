import DebugCode.Uefivar.Record

/-!
# Reading, removing and listing variables

`uefivar.c`: the loops of `uefi_var_del` and `uefi_var_ls` over the entries of
`/sys/firmware/efi/vars`, with `uefi_get_variable`, which reads the record of one entry.
The record buffer is a local variable of the loop bodies that is never initialised; it
keeps its place, and so its contents, from one round to the next.
-/

namespace DebugCode.Uefivar

open Lib

/-- An entry of the directory; `d_name` is an array of 256 bytes. -/
structure Dirent where
  dName : CString
  length_le : dName.strlen ≤ 255

def trueFilter (d : Dirent) : Bool :=
  if strcmp d.dName (CString.literal "del_var") = 0 then false
  else if strcmp d.dName (CString.literal "new_var") = 0 then false
  else if strcmp d.dName (CString.literal ".") = 0 then false
  else if strcmp d.dName (CString.literal "..") = 0 then false
  else true

/-- The entries `scandir` returns, given the directory in the order of `alphasort`; `none`
when it fails. -/
def scandir (entries : Option (List Dirent)) : Option (List Dirent) :=
  entries.map (List.filter trueFilter)

def uefiSetFilename (len : Nat) (varname : CString) : CString :=
  snprintf len (CString.literal "/sys/firmware/efi/vars/" ++ varname ++
    CString.literal "/raw_var")

/-- What `open` and `read` of a file do. -/
inductive RawVar : Type
  /-- `open` fails. -/
  | closed
  /-- `read` fails. -/
  | failed
  /-- `read` delivers these bytes, as many as it was asked for. -/
  | bytes (bs : List UInt8)

inductive Status : Type
  | ok
  | error
deriving DecidableEq

/-- `PATH_MAX` -/
def pathMax : Nat := 4096

def uefiGetVariable (files : CString → RawVar) (varname : CString) (var : Memory) :
    Status × Memory :=
  match files (uefiSetFilename pathMax varname) with
  | .closed => (.error, var)
  | .failed => (.error, clear var)
  | .bytes bs =>
    let delivered := bs.take sizeofUefiVar
    (if delivered.length ≠ sizeofUefiVar then .error else .ok, (clear var).store 0 delivered)

/-! ## Removing -/

/-- What `uefi_var_del` has written to `del_var`, each record with the result of its `write`,
and to `stderr`, and whether it exits. -/
structure Deletion where
  writes : List (List UInt8 × Int)
  deleted : Bool
  stderr : List UInt8
  exits : Bool

def Deletion.wrote (bs : List UInt8) (n : Int) (run : Deletion) : Deletion :=
  { run with writes := run.writes ++ [(bs, n)], deleted := run.deleted || 0 < n }

def Deletion.cannotOpen (run : Deletion) : Deletion :=
  { run with
    stderr := run.stderr ++ ascii "Cannot open /sys/firmware/efi/vars/del_var\n"
    exits := true }

/-- The loop of `uefi_var_del`. The `k`-th time `del_var` is opened, `delVar k` is the result
of the `write`, or `none` when it cannot be opened. -/
def delEntries (files : CString → RawVar) (delVar : Nat → Option Int) (varname : CString) :
    List Dirent → Memory → Deletion → Deletion
  | [], _, run => run
  | d :: names, var, run =>
    if strncmp d.dName varname varname.strlen = 0 then
      match uefiGetVariable files d.dName var with
      | (.error, var) => delEntries files delVar varname names var run
      | (.ok, var) =>
        -- the name in the record, put into `tmpname` first, is overwritten at once
        let guidStr := guidToStr (UefiVar.guid var) 37
        let tmpname := snprintf (513 + 38) (varname ++ CString.literal "-" ++ guidStr)
        if strcmp tmpname d.dName = 0 then
          match delVar run.writes.length with
          | none => run.cannotOpen
          | some n => delEntries files delVar varname names var (run.wrote (recordBytes var) n)
        else delEntries files delVar varname names var run
    else delEntries files delVar varname names var run

def noSuchVariable (varname : CString) : List UInt8 :=
  ascii "No such variable " ++ varname.bytes ++ ascii ".\n"

def uefiVarDel (files : CString → RawVar) (delVar : Nat → Option Int)
    (entries : Option (List Dirent)) (var : Memory) (varname : CString) : Deletion :=
  match scandir entries with
  | some [] => ⟨[], false, [], false⟩
  | names =>
    -- a failed `scandir` returns -1 and no round is made
    let run := delEntries files delVar varname (names.getD []) var ⟨[], false, [], false⟩
    if run.exits then run
    else if run.deleted then run
    else { run with stderr := run.stderr ++ noSuchVariable varname }

/-! ## Listing -/

/-- `"%c%c%c %4u %s %s\n"` -/
def lineText (var : Memory) : List UInt8 :=
  (if UefiVar.attributes var &&& 1 ≠ 0 then ascii "n" else ascii "-") ++
  (if UefiVar.attributes var &&& 2 ≠ 0 then ascii "b" else ascii "-") ++
  (if UefiVar.attributes var &&& 4 ≠ 0 then ascii "r" else ascii "-") ++ ascii " " ++
  padLeft 4 (decimal (UefiVar.datalen var % 2 ^ 32)) ++ ascii " " ++
  (guidToStr (UefiVar.guid var) 37).bytes ++ ascii " " ++ (uefiGetVarname 513 var).bytes ++
  ascii "\n"

/-- The loop of `uefi_var_ls`: what each round prints. -/
def lsEntries (files : CString → RawVar) : List Dirent → Memory → List (Option (List UInt8))
  | [], _ => []
  | d :: names, var =>
    -- the status is not looked at
    let var := (uefiGetVariable files d.dName var).2
    (if UefiVar.attributes var ≠ 0 then some (lineText var) else none) ::
      lsEntries files names var

def uefiVarLs (files : CString → RawVar) (entries : Option (List Dirent)) (var : Memory) :
    List (Option (List UInt8)) :=
  match scandir entries with
  | some [] => []
  | names => lsEntries files (names.getD []) var

/-! ## The record of an entry -/

/-- What the `read` for an entry delivers; `none` when its file cannot be opened. -/
def delivered (files : CString → RawVar) (d : Dirent) : Option (List UInt8) :=
  match files (uefiSetFilename pathMax d.dName) with
  | .closed => none
  | .failed => some []
  | .bytes bs => some (bs.take sizeofUefiVar)

/-- The record of an entry that is read completely. -/
def readRecord (files : CString → RawVar) (d : Dirent) : Option (List UInt8) :=
  (delivered files d).filter fun bs => bs.length = sizeofUefiVar

/-- The memory a record is read into. -/
def ofBytes (bs : List UInt8) : Memory := Memory.zero.store 0 bs

theorem uefiGetVariable_closed {files : CString → RawVar} {d : Dirent}
    (h : delivered files d = none) (var : Memory) :
    uefiGetVariable files d.dName var = (.error, var) := by
  unfold delivered at h
  unfold uefiGetVariable
  cases hFile : files (uefiSetFilename pathMax d.dName) with
  | closed => rfl
  | failed => simp [hFile] at h
  | bytes bs => simp [hFile] at h

theorem uefiGetVariable_opened {files : CString → RawVar} {d : Dirent} {bs : List UInt8}
    (h : delivered files d = some bs) (var : Memory) : uefiGetVariable files d.dName var =
      (if bs.length ≠ sizeofUefiVar then .error else .ok, (clear var).store 0 bs) := by
  unfold delivered at h
  unfold uefiGetVariable
  cases hFile : files (uefiSetFilename pathMax d.dName) with
  | closed => simp [hFile] at h
  | failed =>
    obtain rfl : [] = bs := by simpa [hFile] using h
    simp [sizeofUefiVar]
  | bytes bs' =>
    obtain rfl : bs'.take sizeofUefiVar = bs := by simpa [hFile] using h
    rfl

theorem delivered_length {files : CString → RawVar} {d : Dirent} {bs : List UInt8}
    (h : delivered files d = some bs) : bs.length ≤ sizeofUefiVar := by
  unfold delivered at h
  split at h
  · cases h
  · obtain rfl := Option.some.inj h
    exact Nat.zero_le _
  · obtain rfl := Option.some.inj h
    exact List.length_take_le _ _

theorem readRecord_length {files : CString → RawVar} {d : Dirent} {bs : List UInt8}
    (h : readRecord files d = some bs) : bs.length = sizeofUefiVar := by
  have hFilter := (Option.filter_eq_some_iff.mp h).2
  simpa using hFilter

/-- The status is that of the read, and after a complete one the buffer holds the record. -/
theorem uefiGetVariable_readRecord {files : CString → RawVar} {d : Dirent} {bs : List UInt8}
    (h : readRecord files d = some bs) (var : Memory) :
    ∃ var', uefiGetVariable files d.dName var = (.ok, var') ∧ recordBytes var' = bs := by
  have hDelivered := (Option.filter_eq_some_iff.mp h).1
  have hSize := readRecord_length h
  refine ⟨(clear var).store 0 bs, ?_, ?_⟩
  · rw [uefiGetVariable_opened hDelivered, if_neg fun hNe => hNe hSize]
  · rw [recordBytes, ← hSize, Memory.load_store_same]

theorem uefiGetVariable_unread {files : CString → RawVar} {d : Dirent}
    (h : readRecord files d = none) (var : Memory) :
    (uefiGetVariable files d.dName var).1 = .error := by
  cases hDelivered : delivered files d with
  | none => rw [uefiGetVariable_closed hDelivered]
  | some bs =>
    have hShort : bs.length ≠ sizeofUefiVar := by
      simpa [readRecord, hDelivered] using h
    rw [uefiGetVariable_opened hDelivered, if_pos hShort]

/-! ## Memories that hold the same record -/

theorem apply_eq_of_recordBytes {var var' : Memory} (h : recordBytes var = recordBytes var')
    {a : Nat} (ha : a < sizeofUefiVar) : var a = var' a := by
  have hByte := congrArg (fun bs : List UInt8 => bs[a]?) h
  simpa [recordBytes, Memory.load, ha] using hByte

theorem recordBytes_ofBytes {bs : List UInt8} (h : bs.length = sizeofUefiVar) :
    recordBytes (ofBytes bs) = bs := by
  rw [recordBytes, ofBytes, ← h, Memory.load_store_same]

theorem guid_congr {var var' : Memory} (h : recordBytes var = recordBytes var') :
    UefiVar.guid var = UefiVar.guid var' := by
  funext i
  have hi := i.isLt
  exact apply_eq_of_recordBytes h (by unfold sizeofUefiVar; omega)

theorem loadLe_congr {var var' : Memory} (h : recordBytes var = recordBytes var') {a n : Nat}
    (hEnd : a + n ≤ sizeofUefiVar) : var.loadLe a n = var'.loadLe a n := by
  unfold Memory.loadLe
  rw [Memory.load_congr fun i hi => apply_eq_of_recordBytes h (by omega)]

theorem uefiStr16ToStr_congr {src src' : Nat → Nat} {i k : Nat}
    (h : ∀ j < i, src (k + j) = src' (k + j)) :
    uefiStr16ToStr src i k = uefiStr16ToStr src' i k := by
  induction i generalizing k with
  | zero => rfl
  | succ i ih =>
    have hFirst : src k = src' k := h 0 (by omega)
    have hRest : ∀ j < i, src (k + 1 + j) = src' (k + 1 + j) := by
      intro j hj
      rw [Nat.add_assoc, Nat.add_comm 1 j]
      exact h (j + 1) (by omega)
    rw [uefiStr16ToStr, uefiStr16ToStr, hFirst, ih hRest]

/-- A line shows the record alone. -/
theorem lineText_congr {var var' : Memory} (h : recordBytes var = recordBytes var') :
    lineText var = lineText var' := by
  have hAttributes : UefiVar.attributes var = UefiVar.attributes var' :=
    loadLe_congr h (by unfold sizeofUefiVar; omega)
  have hDatalen : UefiVar.datalen var = UefiVar.datalen var' :=
    loadLe_congr h (by unfold sizeofUefiVar; omega)
  have hName : uefiGetVarname 513 var = uefiGetVarname 513 var' := by
    unfold uefiGetVarname
    rw [uefiStr16ToStr_congr]
    intro j hj
    exact loadLe_congr h (by unfold sizeofUefiVar; omega)
  unfold lineText
  rw [hAttributes, hDatalen, hName, guid_congr h]

/-! ## A directory with an entry that cannot be opened -/

/-- The record of the variable `A`, set to `x` under the GUID of zeros. -/
def setRecord : Memory :=
  uefiVarRecord Memory.zero (fun _ => 0) (CString.literal "A") (CString.literal "x")

def readableEntry : Dirent where
  dName := CString.literal "A-00000000-0000-0000-0000-000000000000"
  length_le := by decide

/-- The name of `A` is a prefix of this one's. -/
def closedEntry : Dirent where
  dName := CString.literal "AB-00000000-0000-0000-0000-000000000000"
  length_le := by decide

def twoEntries : Option (List Dirent) := some [readableEntry, closedEntry]

def twoFiles (path : CString) : RawVar :=
  if path = uefiSetFilename pathMax readableEntry.dName then .bytes (recordBytes setRecord)
  else .closed

theorem scandir_twoEntries : scandir twoEntries = some [readableEntry, closedEntry] := by
  have hReadable : trueFilter readableEntry = true := by decide
  have hClosed : trueFilter closedEntry = true := by decide
  simp [scandir, twoEntries, hReadable, hClosed]

theorem delivered_readableEntry :
    delivered twoFiles readableEntry = some (recordBytes setRecord) := by
  have hLength : (recordBytes setRecord).length = sizeofUefiVar := Memory.load_length _ _ _
  unfold delivered twoFiles
  rw [if_pos rfl]
  exact congrArg some (List.take_of_length_le hLength.le)

theorem delivered_closedEntry : delivered twoFiles closedEntry = none := by
  have hPath : uefiSetFilename pathMax closedEntry.dName ≠
      uefiSetFilename pathMax readableEntry.dName := by decide
  unfold delivered twoFiles
  rw [if_neg hPath]

end DebugCode.Uefivar
