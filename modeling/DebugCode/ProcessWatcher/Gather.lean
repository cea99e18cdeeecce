import DebugCode.Lib.Scanf
import Mathlib.Logic.Function.Basic

/-!
# Gathering the CPU samples

`process-watcher.c` up to the end of its gathering loop. The tables come from `malloc` with
arbitrary contents; only the PIDs are initialised. Every round lists `/proc`, looks every
PID up in an open-addressing table and, where the process's `stat` line could be read and
parsed, updates the slot and its cell of the sample matrix.

The probe loop need not stop, so the functions that contain it take fuel, the most tests one
probe may make, and return `none` when a probe runs out of it.
-/

namespace DebugCode.ProcessWatcher

open Lib

/-- `#define PROCESS_INFO_SIZE 1031` -/
def processInfoSize : Nat := 1031

/-- One slot of the process table. -/
structure ProcessInfo where
  pid : Int
  usr : UInt32
  sys : UInt32
  previousUsr : UInt32
  previousSys : UInt32
  totalUsr : UInt32
  totalSys : UInt32
  active : Bool
  /-- The 128 bytes of the buffer. -/
  name : List UInt8

structure Sample where
  deltaUsr : UInt32
  deltaSys : UInt32
deriving DecidableEq

/-- The tables `main` allocates: the slots, and the cell of every sample and slot. -/
structure Tables where
  processInfo : Nat → ProcessInfo
  samples : Nat → Nat → Sample

/-- The three values `sscanf` reads from a `stat` line. -/
structure Stat where
  name : List UInt8
  usr : UInt32
  sys : UInt32
deriving DecidableEq

/-- An entry of `/proc` as one round sees it. A numeric name is the PID of a process. -/
structure Dirent where
  dName : CString
  /-- What `open` and `read` of the `stat` file put into the buffer; `none` when `open`
  failed or `read` delivered nothing. -/
  stat : Option (List UInt8)
  pid_nonneg : dName.bytes.head?.any isdigit = true → 0 ≤ atoi dName.bytes

/-- The entries of `/proc` in the order of one listing. -/
abbrev Scan : Type := List Dirent

/-- `isdigit(dirent->d_name[0])` -/
def Dirent.isProcess (d : Dirent) : Bool := d.dName.bytes.head?.any isdigit

def Dirent.pid (d : Dirent) : Int := atoi d.dName.bytes

/-- `((size_t)pid * 3) % PROCESS_INFO_SIZE`, with a 64-bit `size_t`. -/
def pidHash (pid : Int) : Nat := ((pid % 2 ^ 64).toNat * 3 % 2 ^ 64) % processInfoSize

/-- `while (process_info[index].pid != pid) { ... }`: the index at which the loop ends. -/
def probe (processInfo : Nat → ProcessInfo) (pid : Int) : Nat → Nat → Option Nat
  | 0, _ => none
  | fuel + 1, index =>
    if (processInfo index).pid = pid then some index
    else if (processInfo index).pid = -1 then some index
    else probe processInfo pid fuel (if processInfoSize ≤ index + 1 then 0 else index + 1)

/-- `"%*d %s %*s %*d %*d %*d %*d %*d %*d %*d %*d %*d %*d %u %u"` -/
def statFormat : List Directive :=
  [.int false, .space, .word true, .space, .word false, .space] ++
    (List.replicate 10 [.int false, .space]).flatten ++ [.uint true, .space, .uint true]

/-- The `sscanf` of a `stat` line, `none` unless it returns `3`. -/
def scanStat (buffer : List UInt8) : Option Stat :=
  match sscanf buffer statFormat with
  | [.word name, .uint usr, .uint sys] => some ⟨name, UInt32.ofNat usr, UInt32.ofNat sys⟩
  | _ => none

/-- The triple an entry of a listing delivers, if any. -/
def Dirent.parsed (d : Dirent) : Option Stat := d.stat.bind scanStat

def ProcessInfo.setPid (pid : Int) (info : ProcessInfo) : ProcessInfo :=
  { info with pid := pid }

/-- `process_info[index].pid = pid;` -/
def Tables.setPid (index : Nat) (pid : Int) (tables : Tables) : Tables where
  processInfo := Function.update tables.processInfo index
    ((tables.processInfo index).setPid pid)
  samples := tables.samples

/-- The assignments to the slot. The name loses its last character, which is `)`, and is
copied from its second one on, behind the `(`. -/
def ProcessInfo.record (sample : Int) (stat : Stat) (info : ProcessInfo) : ProcessInfo :=
  { info with
    name := strncpy (CString.ofBuffer (stat.name.dropLast.drop 1)) 128
    previousUsr := info.usr
    previousSys := info.sys
    usr := stat.usr
    sys := stat.sys
    active := info.active ||
      (sample ≠ -1 && 0 < (stat.usr - info.usr) + (stat.sys - info.sys)) }

/-- The differences to the values the slot held before. -/
def ProcessInfo.delta (stat : Stat) (info : ProcessInfo) : Sample :=
  ⟨stat.usr - info.usr, stat.sys - info.sys⟩

/-- What a parsed `stat` line changes: the slot, and from sample `0` on the sample's cell. -/
def Tables.record (sample : Int) (index : Nat) (stat : Stat) (tables : Tables) : Tables where
  processInfo := Function.update tables.processInfo index
    ((tables.processInfo index).record sample stat)
  samples :=
    if sample ≠ -1 then
      Function.update tables.samples sample.toNat
        (Function.update (tables.samples sample.toNat) index
          ((tables.processInfo index).delta stat))
    else tables.samples

/-- The body of the `readdir` loop for one entry. -/
def scanEntry (fuel : Nat) (sample : Int) (tables : Tables) (d : Dirent) : Option Tables :=
  if d.isProcess then
    (probe tables.processInfo d.pid fuel (pidHash d.pid)).map fun index =>
      let tables := tables.setPid index d.pid
      match d.parsed with
      | none => tables
      | some stat => tables.record sample index stat
  else some tables

/-- The `readdir` loop. -/
def scanProc (fuel : Nat) (sample : Int) (tables : Tables) (scan : Scan) : Option Tables :=
  scan.foldlM (scanEntry fuel sample) tables

/-- Where the gathering loop ends. -/
structure Gathered where
  stop : Bool
  sample : Int
  tables : Tables

/-- `for (sample = -1; (!stop) && (sample < max_samples); sample++)`. `SIGINT` sets `stop`
during the last of the listings: a later one is never made. -/
def gather (fuel maxSamples : Nat) : Int → List Scan → Tables → Option Gathered
  | sample, [], tables => some ⟨true, sample, tables⟩
  | sample, scan :: scans, tables =>
    if sample < maxSamples then
      (scanProc fuel sample tables scan).bind fun tables =>
        gather fuel maxSamples (sample + 1) scans tables
    else some ⟨false, sample, tables⟩

/-- `for (i = 0; i < PROCESS_INFO_SIZE; i++) process_info[i].pid = -1;` -/
def initPids (tables : Tables) : Tables where
  processInfo i :=
    if i < processInfoSize then (tables.processInfo i).setPid (-1) else tables.processInfo i
  samples := tables.samples

end DebugCode.ProcessWatcher
