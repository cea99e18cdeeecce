import DebugCode.Lib.CString
import DebugCode.Lib.Memory
import DebugCode.UefiCsmVideo.FarPointer

/-!
# The modes of the video BIOS

`video-modes.c` goes through the list of modes that the BIOS points to, asks about each one, and
prints a line from the buffer for the answer when the low byte of `%eax` is not zero. A call that
fails leaves the buffer as it was, and need not leave that byte zero: the line is then the one of
the last mode that was answered, or of what the buffer held at first, under another number.

* `modesLoop_eq_some_iff`: the loop ends exactly when the list has its end mark, with what each
  mode before it prints.
* `modesLoop_own_iff`: it ends with the line of its own answer for each mode that is answered, and
  no others, exactly when every call before the mark succeeds or leaves zero in the low byte.
-/

namespace DebugCode.VideoModes

open Lib

/-- The fields of `VBE_modeinfo` that are printed. -/
structure ModeInfo where
  modeAttr : BitVec 16
  width : BitVec 16
  height : BitVec 16
  bitsPerPixel : BitVec 8

/-- The registers set for a call of interrupt `0x10`. -/
structure Request where
  eax : BitVec 32
  ecx : BitVec 32
  es : BitVec 16
  edi : BitVec 32

/-- What a call leaves in `%eax`, and in the buffer if it fills it. -/
structure Reply where
  eax : BitVec 32
  info : Option ModeInfo

/-- The BIOS, with any state. -/
abbrev Vbe (σ : Type) := σ → Request → Reply × σ

/-- `regs` in `getSVGAmode`, with the buffer at the address `data`. -/
def request (data : BitVec 32) (mode : ℕ) : Request where
  eax := 0x4f01
  ecx := BitVec.ofNat 32 mode
  es := (data >>> 4).setWidth 16
  edi := data &&& 0xf

/-- `regs.eax & 0xff` -/
def Reply.low (reply : Reply) : BitVec 32 := reply.eax &&& 0xff

/-- A number with four hexadecimal digits. -/
def hex4 (v : ℕ) : List UInt8 :=
  hex2 (UInt8.ofNat (v / 256)) ++ hex2 (UInt8.ofNat v)

/-- `printf("Mode: %4.4x: %d x %d x %d %s\n", ...)` -/
def line (mode : ℕ) (info : ModeInfo) : List UInt8 :=
  ascii "Mode: " ++ hex4 mode ++ ascii ": " ++ decimal info.width.toNat ++ ascii " x " ++
    decimal info.height.toNat ++ ascii " x " ++ decimal info.bitsPerPixel.toNat ++ ascii " " ++
      (if info.modeAttr &&& 16 ≠ 0 then ascii "Graphics" else ascii "Text") ++ ascii "\n"

section

variable {σ : Type} (vbe : Vbe σ) (data : BitVec 32) (mem : Memory)

/-- The loop of `main`, for at most `fuel` rounds from the address `modes` on: what each mode
prints. `buffer` is what `vbe_modeinfo` points to. -/
def modesLoop : ℕ → ℕ → ModeInfo → σ → Option (List (Option (List UInt8)))
  | 0, _, _, _ => none
  | fuel + 1, modes, buffer, s =>
    let mode := mem.loadLe modes 2
    if mode = 0xffff then some []
    else
      let (reply, s) := vbe s (request data mode)
      let buffer := reply.info.getD buffer
      (modesLoop fuel (modes + 2) buffer s).map
        ((if reply.low ≠ 0 then some (line mode buffer) else none) :: ·)

/-! ## What the modes print -/

/-- The mode `k` of the list at `modes`. -/
def modeAt (modes k : ℕ) : ℕ := mem.loadLe (modes + 2 * k) 2

/-- The end mark is behind `n` modes. -/
def EndsBehind (modes n : ℕ) : Prop :=
  modeAt mem modes n = 0xffff ∧ ∀ k < n, modeAt mem modes k ≠ 0xffff

/-- The buffer and the state of the BIOS after the call about the mode `k`. -/
def ask (modes k : ℕ) (before : ModeInfo × σ) : ModeInfo × σ :=
  let (reply, s) := vbe before.2 (request data (modeAt mem modes k))
  (reply.info.getD before.1, s)

/-- The buffer and the state of the BIOS when `k` modes were asked about. -/
def asked (modes : ℕ) (buffer : ModeInfo) (s : σ) : ℕ → ModeInfo × σ
  | 0 => (buffer, s)
  | k + 1 => ask vbe data mem modes k (asked modes buffer s k)

/-- The reply about the mode `k`. -/
def reply (modes : ℕ) (buffer : ModeInfo) (s : σ) (k : ℕ) : Reply :=
  (vbe (asked vbe data mem modes buffer s k).2 (request data (modeAt mem modes k))).1

/-- What is printed for the mode `k`. -/
def printed (modes : ℕ) (buffer : ModeInfo) (s : σ) (k : ℕ) : Option (List UInt8) :=
  if (reply vbe data mem modes buffer s k).low ≠ 0 then
    some (line (modeAt mem modes k) (asked vbe data mem modes buffer s (k + 1)).1)
  else none

/-- The line of the answer about the mode `k`. -/
def ownLine (modes : ℕ) (buffer : ModeInfo) (s : σ) (k : ℕ) : Option (List UInt8) :=
  (reply vbe data mem modes buffer s k).info.map (line (modeAt mem modes k))

variable {vbe data mem} {modes : ℕ} {buffer : ModeInfo} {s : σ}

theorem modeAt_succ (modes k : ℕ) : modeAt mem modes (k + 1) = modeAt mem (modes + 2) k := by
  rw [modeAt, modeAt, Nat.mul_succ, Nat.add_comm (2 * k), Nat.add_assoc]

theorem ask_succ (k : ℕ) :
    ask vbe data mem modes (k + 1) = ask vbe data mem (modes + 2) k := by
  funext before
  rw [ask, ask, modeAt_succ]

/-- The first round, and then those from the next mode on. -/
theorem asked_succ (k : ℕ) : asked vbe data mem modes buffer s (k + 1) =
    asked vbe data mem (modes + 2) (asked vbe data mem modes buffer s 1).1
      (asked vbe data mem modes buffer s 1).2 k := by
  induction k with
  | zero => rfl
  | succ k ih =>
    show ask vbe data mem modes (k + 1) (asked vbe data mem modes buffer s (k + 1)) = _
    rw [ask_succ, ih]
    rfl

theorem reply_succ (k : ℕ) : reply vbe data mem modes buffer s (k + 1) =
    reply vbe data mem (modes + 2) (asked vbe data mem modes buffer s 1).1
      (asked vbe data mem modes buffer s 1).2 k := by
  rw [reply, asked_succ k, modeAt_succ, reply]

theorem printed_succ (k : ℕ) : printed vbe data mem modes buffer s (k + 1) =
    printed vbe data mem (modes + 2) (asked vbe data mem modes buffer s 1).1
      (asked vbe data mem modes buffer s 1).2 k := by
  rw [printed, reply_succ k, asked_succ (k + 1), modeAt_succ, printed]

theorem endsBehind_succ_iff {n : ℕ} : EndsBehind mem modes (n + 1) ↔
    modeAt mem modes 0 ≠ 0xffff ∧ EndsBehind mem (modes + 2) n := by
  rw [EndsBehind, EndsBehind, modeAt_succ, Nat.forall_lt_succ_left]
  simp only [modeAt_succ]
  tauto

theorem modesLoop_mark (fuel : ℕ) (hMark : modeAt mem modes 0 = 0xffff) :
    modesLoop vbe data mem (fuel + 1) modes buffer s = some [] := by
  rw [modesLoop]
  exact if_pos hMark

theorem modesLoop_succ (fuel : ℕ) (hMore : modeAt mem modes 0 ≠ 0xffff) :
    modesLoop vbe data mem (fuel + 1) modes buffer s =
      (modesLoop vbe data mem fuel (modes + 2) (asked vbe data mem modes buffer s 1).1
        (asked vbe data mem modes buffer s 1).2).map
          (printed vbe data mem modes buffer s 0 :: ·) := by
  rw [modesLoop]
  exact if_neg hMore

/-- The induction is on the fuel one way, and on the modes ahead of the mark the other way. -/
theorem modesLoop_eq_some_iff {out : List (Option (List UInt8))} :
    (∃ fuel, modesLoop vbe data mem fuel modes buffer s = some out) ↔
      ∃ n, EndsBehind mem modes n ∧
        out = (List.range n).map (printed vbe data mem modes buffer s) := by
  constructor
  · rintro ⟨fuel, hStop⟩
    induction fuel generalizing modes buffer s out with
    | zero => cases hStop
    | succ fuel ih =>
      by_cases hMark : modeAt mem modes 0 = 0xffff
      · rw [modesLoop_mark fuel hMark] at hStop
        exact ⟨0, ⟨hMark, by simp⟩, (Option.some.inj hStop).symm⟩
      · rw [modesLoop_succ fuel hMark] at hStop
        obtain ⟨rest, hRest, rfl⟩ := Option.map_eq_some_iff.mp hStop
        obtain ⟨n, hEnds, rfl⟩ := ih hRest
        refine ⟨n + 1, endsBehind_succ_iff.mpr ⟨hMark, hEnds⟩, ?_⟩
        rw [List.range_succ_eq_map, List.map_cons, List.map_map]
        congr 1
        apply List.map_congr_left
        intro k _
        exact (printed_succ k).symm
  · rintro ⟨n, hEnds, rfl⟩
    induction n generalizing modes buffer s with
    | zero => exact ⟨1, modesLoop_mark 0 hEnds.1⟩
    | succ n ih =>
      obtain ⟨hMore, hRest⟩ := endsBehind_succ_iff.mp hEnds
      have hLater := @ih (modes + 2) (asked vbe data mem modes buffer s 1).1
        (asked vbe data mem modes buffer s 1).2 hRest
      obtain ⟨fuel, hStop⟩ := hLater
      refine ⟨fuel + 1, ?_⟩
      rw [modesLoop_succ fuel hMore, hStop, Option.map_some, List.range_succ_eq_map,
        List.map_cons, List.map_map]
      congr 2
      apply List.map_congr_left
      intro k _
      exact (printed_succ k).symm

theorem ite_some_eq_map_iff {α β : Type} (P : Prop) [Decidable P] (answer : Option α) (old : α)
    (f : α → β) : (if P then some (f (answer.getD old)) else none) = answer.map f ↔
      (P ↔ answer.isSome = true) := by
  cases answer with
  | none => by_cases hTest : P <;> simp [hTest]
  | some new => by_cases hTest : P <;> simp [hTest]

/-- A mode prints its own line exactly when its call fills the buffer just where it leaves
something in the low byte. -/
theorem printed_eq_ownLine_iff (k : ℕ) :
    printed vbe data mem modes buffer s k = ownLine vbe data mem modes buffer s k ↔
      ((reply vbe data mem modes buffer s k).low ≠ 0 ↔
        (reply vbe data mem modes buffer s k).info.isSome = true) :=
  ite_some_eq_map_iff _ _ (asked vbe data mem modes buffer s k).1 _

/-- What the interface of the BIOS says: a call fills the buffer when it leaves `0x004f` in `%ax`,
and only then. -/
def FillsOnSuccess (vbe : Vbe σ) : Prop :=
  ∀ s request, (vbe s request).1.info.isSome = true ↔ (vbe s request).1.eax.setWidth 16 = 0x004f#16

/-- `0x4f` is left in the low byte by a call that succeeds. -/
theorem low_of_success {reply : Reply} (hSuccess : reply.eax.setWidth 16 = 0x004f#16) :
    reply.low ≠ 0 := by
  intro hZero
  have hByte : reply.low.setWidth 8 = 0x4f#8 := by
    rw [Reply.low, BitVec.setWidth_and, ← BitVec.setWidth_setWidth_of_le reply.eax
      (show 8 ≤ 16 by decide), hSuccess]
    decide
  rw [hZero] at hByte
  exact absurd hByte (by decide)

theorem FillsOnSuccess.answered (hFills : FillsOnSuccess vbe) (k : ℕ) :
    ((reply vbe data mem modes buffer s k).low ≠ 0 ↔
      (reply vbe data mem modes buffer s k).info.isSome = true) ↔
        ((reply vbe data mem modes buffer s k).eax.setWidth 16 = 0x004f#16 ∨
          (reply vbe data mem modes buffer s k).low = 0) := by
  have hFilled := hFills (asked vbe data mem modes buffer s k).2 (request data (modeAt mem modes k))
  rw [← reply] at hFilled
  rw [hFilled]
  constructor
  · intro hSame
    by_cases hLow : (reply vbe data mem modes buffer s k).low = 0
    · exact Or.inr hLow
    · exact Or.inl (hSame.mp hLow)
  · rintro (hSuccess | hLow)
    · exact iff_of_true (low_of_success hSuccess) hSuccess
    · exact iff_of_false (not_not.mpr hLow) fun hSuccess => low_of_success hSuccess hLow

theorem EndsBehind.unique {m n : ℕ} (hm : EndsBehind mem modes m) (hn : EndsBehind mem modes n) :
    m = n := by
  rcases Nat.lt_trichotomy m n with hLt | hSame | hLt
  · exact absurd hm.1 (hn.2 m hLt)
  · exact hSame
  · exact absurd hn.1 (hm.2 n hLt)

/-- The loop ends with the own line of each mode that is answered, and no others, exactly when the
list has its mark and every call before it succeeds or leaves zero in the low byte. -/
theorem modesLoop_own_iff (hFills : FillsOnSuccess vbe) (modes : ℕ) (buffer : ModeInfo) (s : σ) :
    (∃ n fuel, EndsBehind mem modes n ∧ modesLoop vbe data mem fuel modes buffer s =
      some ((List.range n).map (ownLine vbe data mem modes buffer s))) ↔
      ∃ n, EndsBehind mem modes n ∧ ∀ k < n,
        (reply vbe data mem modes buffer s k).eax.setWidth 16 = 0x004f#16 ∨
          (reply vbe data mem modes buffer s k).low = 0 := by
  have hOwn : ∀ n, (List.range n).map (printed vbe data mem modes buffer s) =
      (List.range n).map (ownLine vbe data mem modes buffer s) ↔ ∀ k < n,
        ((reply vbe data mem modes buffer s k).eax.setWidth 16 = 0x004f#16 ∨
          (reply vbe data mem modes buffer s k).low = 0) := by
    intro n
    rw [List.map_inj_left]
    simp only [List.mem_range]
    apply forall₂_congr
    intro k _
    rw [printed_eq_ownLine_iff, hFills.answered]
  constructor
  · rintro ⟨n, fuel, hEnds, hStop⟩
    obtain ⟨m, hEnds', hOut⟩ := modesLoop_eq_some_iff.mp ⟨fuel, hStop⟩
    obtain rfl := hEnds.unique hEnds'
    exact ⟨n, hEnds, (hOwn n).mp hOut.symm⟩
  · rintro ⟨n, hEnds, hAnswered⟩
    obtain ⟨fuel, hStop⟩ := modesLoop_eq_some_iff.mpr ⟨n, hEnds, rfl⟩
    exact ⟨n, fuel, hEnds, by rw [hStop, (hOwn n).mpr hAnswered]⟩

end

/-- A BIOS that knows the mode `0x100` alone, and says so with `0x01` in `%ah`. -/
def oneMode : Vbe Unit := fun s request =>
  if request.ecx = 0x100 then (⟨0x004f, some ⟨0x9b, 640, 400, 8⟩⟩, s) else (⟨0x014f, none⟩, s)

theorem oneMode_fills : FillsOnSuccess oneMode := by
  intro s request
  rw [oneMode]
  split
  · exact iff_of_true rfl rfl
  · apply iff_of_false Bool.false_ne_true
    show ¬ (0x014f : BitVec 32).setWidth 16 = 0x004f#16
    decide

/-- The list of the modes `0x100` and `0x101`. -/
def twoModes : Memory := fun a => [0x00, 0x01, 0x01, 0x01, 0xff, 0xff].getD a 0

/-- The mode that is not known is shown with the size of the other one. -/
theorem modesLoop_not_own_twoModes :
    ¬ ∃ n fuel, EndsBehind twoModes 0 n ∧ modesLoop oneMode 0 twoModes fuel 0 ⟨0, 0, 0, 0⟩ () =
      some ((List.range n).map (ownLine oneMode 0 twoModes 0 ⟨0, 0, 0, 0⟩ ())) := by
  rw [modesLoop_own_iff oneMode_fills]
  rintro ⟨n, hEnds, hAnswered⟩
  have hTwo : EndsBehind twoModes 0 2 := by
    rw [EndsBehind]
    decide
  obtain rfl := hEnds.unique hTwo
  exact absurd (hAnswered 1 (by decide)) (by decide)

end DebugCode.VideoModes
