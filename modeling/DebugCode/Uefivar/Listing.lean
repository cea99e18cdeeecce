import DebugCode.Uefivar.Variables

/-!
# Listing the variables

The loop prints a line whenever the attributes in the buffer are not zero, whether or not
the entry was read. What is left in the buffer by a failing entry are the attribute bytes
of the last entry whose file could be opened, with zeros for those not delivered, or what
the stack held.

* `attributes_uefiGetVariable`: the step lemma about the attributes in the buffer.
* `uefiVarLs_own_iff`: every entry prints its own line or none exactly when each entry that
  is not read completely leaves only zero attribute bytes.
-/

namespace DebugCode.Uefivar

open Lib

/-- The line of an entry: that of its record, if it is read and has attributes. -/
def ownLine (files : CString → RawVar) (d : Dirent) : Option (List UInt8) :=
  (readRecord files d).bind fun bs =>
    if UefiVar.attributes (ofBytes bs) ≠ 0 then some (lineText (ofBytes bs)) else none

/-- The attribute bytes among those last delivered for the entries, `start` before them. -/
def attributeBytes (files : CString → RawVar) (start : List UInt8) (ds : List Dirent) :
    List UInt8 :=
  ds.foldl (fun left d => ((delivered files d).map (List.drop 2080)).getD left) start

/-- The entries that are not read completely leave no attributes behind. -/
def FailuresQuiet (files : CString → RawVar) (start : List UInt8) (names : List Dirent) : Prop :=
  ∀ before d after, names = before ++ d :: after → readRecord files d = none →
    ∀ b ∈ attributeBytes files start (before ++ [d]), b = 0

theorem attributes_eq_zero_iff {var : Memory} :
    UefiVar.attributes var = 0 ↔ ∀ b ∈ var.load 2080 4, b = 0 := leValue_eq_zero_iff

/-- A record read into cleared memory has the attributes delivered. -/
theorem attributes_store {var : Memory} {bs : List UInt8} (h : bs.length ≤ sizeofUefiVar) :
    UefiVar.attributes ((clear var).store 0 bs) = 0 ↔ ∀ b ∈ bs.drop 2080, b = 0 := by
  unfold sizeofUefiVar at h
  rw [UefiVar.attributes, Memory.loadLe_eq_zero_iff]
  constructor
  · intro hZero b hb
    obtain ⟨i, hi, rfl⟩ := List.getElem_of_mem hb
    rw [List.length_drop] at hi
    have hByte := hZero i (by omega)
    rw [Memory.store_zero_inside (by omega)] at hByte
    rw [List.getElem_drop]
    exact hByte
  · intro hZero i hi
    by_cases hDelivered : 2080 + i < bs.length
    · rw [Memory.store_zero_inside hDelivered]
      apply hZero
      rw [List.mem_iff_getElem]
      exact ⟨i, by rw [List.length_drop]; omega, List.getElem_drop ..⟩
    · rw [Memory.store_above bs (by omega)]
      exact clear_zero var (by unfold sizeofUefiVar; omega)

section

variable {files : CString → RawVar}

theorem attributeBytes_closed {d : Dirent} (h : delivered files d = none) (left : List UInt8) :
    attributeBytes files left [d] = left := by
  rw [attributeBytes, List.foldl_cons, List.foldl_nil, h]
  rfl

theorem attributeBytes_opened {d : Dirent} {bs : List UInt8} (h : delivered files d = some bs)
    (left : List UInt8) : attributeBytes files left [d] = bs.drop 2080 := by
  rw [attributeBytes, List.foldl_cons, List.foldl_nil, h]
  rfl

theorem attributeBytes_cons (d : Dirent) (ds : List Dirent) (left : List UInt8) :
    attributeBytes files left (d :: ds) =
      attributeBytes files (attributeBytes files left [d]) ds := rfl

/-- The step lemma: after an entry the buffer has the attributes delivered for it, or those
it had before when the file cannot be opened. -/
theorem attributes_uefiGetVariable {var : Memory} {left : List UInt8}
    (hLeft : UefiVar.attributes var = 0 ↔ ∀ b ∈ left, b = 0) (d : Dirent) :
    UefiVar.attributes (uefiGetVariable files d.dName var).2 = 0 ↔
      ∀ b ∈ attributeBytes files left [d], b = 0 := by
  cases hDelivered : delivered files d with
  | none =>
    rw [uefiGetVariable_closed hDelivered, attributeBytes_closed hDelivered]
    exact hLeft
  | some bs =>
    rw [uefiGetVariable_opened hDelivered, attributeBytes_opened hDelivered]
    exact attributes_store (delivered_length hDelivered)

/-- An entry that is read prints its own line. -/
theorem line_of_readRecord {d : Dirent} {bs : List UInt8} (h : readRecord files d = some bs)
    (var : Memory) :
    (if UefiVar.attributes (uefiGetVariable files d.dName var).2 ≠ 0 then
      some (lineText (uefiGetVariable files d.dName var).2) else none) = ownLine files d := by
  obtain ⟨var', hGet, hBytes⟩ := uefiGetVariable_readRecord h var
  have hSame := hBytes.trans (recordBytes_ofBytes (readRecord_length h)).symm
  have hAttributes : UefiVar.attributes var' = UefiVar.attributes (ofBytes bs) :=
    loadLe_congr hSame (by unfold sizeofUefiVar; omega)
  rw [hGet, ownLine, h, Option.bind_some, hAttributes, lineText_congr hSame]

/-- An entry that is not read prints nothing exactly when there are no attributes left. -/
theorem line_of_unread {d : Dirent} (h : readRecord files d = none) (var : Memory) :
    (if UefiVar.attributes (uefiGetVariable files d.dName var).2 ≠ 0 then
      some (lineText (uefiGetVariable files d.dName var).2) else none) = ownLine files d ↔
      UefiVar.attributes (uefiGetVariable files d.dName var).2 = 0 := by
  rw [ownLine, h, Option.bind_none]
  simp

theorem failuresQuiet_cons {start : List UInt8} {d : Dirent} {names : List Dirent} :
    FailuresQuiet files start (d :: names) ↔
      (readRecord files d = none → ∀ b ∈ attributeBytes files start [d], b = 0) ∧
        FailuresQuiet files (attributeBytes files start [d]) names := by
  constructor
  · intro h
    refine ⟨h [] d names rfl, ?_⟩
    intro before e after hNames hRead
    exact h (d :: before) e after (by rw [hNames]; rfl) hRead
  · intro h before e after hNames hRead
    cases before with
    | nil =>
      obtain ⟨rfl, -⟩ := List.cons.inj hNames
      exact h.1 hRead
    | cons d' before =>
      obtain ⟨rfl, hRest⟩ := List.cons.inj hNames
      exact h.2 before e after hRest hRead

/-- The run lemma; the induction carries what the entries so far have left in the buffer. -/
theorem lsEntries_own_iff (names : List Dirent) {var : Memory} {left : List UInt8}
    (hLeft : UefiVar.attributes var = 0 ↔ ∀ b ∈ left, b = 0) :
    lsEntries files names var = names.map (ownLine files) ↔ FailuresQuiet files left names := by
  induction names generalizing var left with
  | nil =>
    constructor
    · intro _ before d after hNames
      exact absurd hNames (by simp)
    · intro _
      rfl
  | cons d names ih =>
    have hStep : UefiVar.attributes (uefiGetVariable files d.dName var).2 = 0 ↔
        ∀ b ∈ attributeBytes files left [d], b = 0 := attributes_uefiGetVariable hLeft d
    rw [lsEntries, List.map_cons, List.cons.injEq, ih hStep, failuresQuiet_cons]
    apply and_congr_left'
    cases hRead : readRecord files d with
    | none =>
      rw [line_of_unread hRead, hStep]
      simp
    | some bs =>
      rw [line_of_readRecord hRead]
      simp

theorem uefiVarLs_eq (files : CString → RawVar) (entries : Option (List Dirent))
    (var : Memory) :
    uefiVarLs files entries var = lsEntries files ((scandir entries).getD []) var := by
  unfold uefiVarLs
  split
  · rename_i hEmpty
    rw [hEmpty]
    rfl
  · rfl

/-- Every entry prints its own line, or none, exactly when the entries that are not read
completely leave no attributes behind. -/
theorem uefiVarLs_own_iff (entries : Option (List Dirent)) (var : Memory) :
    uefiVarLs files entries var = ((scandir entries).getD []).map (ownLine files) ↔
      FailuresQuiet files (var.load 2080 4) ((scandir entries).getD []) := by
  rw [uefiVarLs_eq]
  exact lsEntries_own_iff _ attributes_eq_zero_iff

end

/-- The entry that cannot be opened prints the line of the entry before it. -/
theorem uefiVarLs_stale : ¬ ∀ (files : CString → RawVar) (entries : Option (List Dirent))
    (var : Memory), uefiVarLs files entries var =
      ((scandir entries).getD []).map (ownLine files) := by
  intro h
  have hLines := h twoFiles twoEntries Memory.zero
  rw [uefiVarLs_eq, lsEntries_own_iff _ attributes_eq_zero_iff, scandir_twoEntries] at hLines
  have hUnread : readRecord twoFiles closedEntry = none := by
    rw [readRecord, delivered_closedEntry]
    rfl
  have hLeft := hLines [readableEntry] closedEntry [] rfl hUnread
  have hBytes : attributeBytes twoFiles (Memory.zero.load 2080 4) [readableEntry, closedEntry] =
      setRecord.load 2080 4 := by
    rw [attributeBytes_cons, attributeBytes_opened delivered_readableEntry,
      attributeBytes_closed delivered_closedEntry]
    exact Memory.load_drop setRecord 0 sizeofUefiVar 2080
  rw [List.singleton_append, hBytes, ← attributes_eq_zero_iff] at hLeft
  have hSeven : UefiVar.attributes setRecord = 7 := attributes_uefiVarRecord _ _ _ _
  omega

end DebugCode.Uefivar
