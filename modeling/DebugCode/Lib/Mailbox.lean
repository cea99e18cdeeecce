import DebugCode.Lib.Schedule

/-!
# A buffer for one message

A host gives messages to a device over a buffer for one message, and can see whether the buffer
is empty. Host and device run at the same time: nothing is known about the order of their steps.
A message that is written into a full buffer replaces the one there, which is then lost.

* `Sound.step`, `Sound.steps`: a host that waits for the empty buffer right before each message
  loses none, and the device takes the messages in their order.
* `taken_prefix`, `taken_eq`: what the device has taken, at any time and in the end.
* `exists_through`: when host and device both go on, all messages are taken.
-/

namespace DebugCode.Lib.Mailbox

variable {μ : Type*}

/-- A statement of the host. -/
inductive Stmt (μ : Type*)
  /-- wait until the buffer is empty -/
  | wait
  /-- write a message into the buffer -/
  | send (m : μ)
  deriving DecidableEq

structure State (μ : Type*) where
  /-- the statements ahead -/
  program : List (Stmt μ)
  slot : Option μ
  taken : List μ
  lost : List μ

inductive Party
  | host | device
  deriving DecidableEq

/-- A step of one of the two. A host that waits stays where it is while the buffer is full. -/
def step (s : State μ) : Party → State μ
  | .host =>
    match s.program with
    | [] => s
    | .wait :: rest => if s.slot.isSome then s else { s with program := rest }
    | .send m :: rest =>
      { s with program := rest, slot := some m, lost := s.lost ++ s.slot.toList }
  | .device =>
    match s.slot with
    | none => s
    | some m => { s with slot := none, taken := s.taken ++ [m] }

def start (program : List (Stmt μ)) : State μ := ⟨program, none, [], []⟩

section

variable {p : List (Stmt μ)} {m : μ} {slot : Option μ} {taken lost : List μ}

@[simp]
theorem step_wait_full : step ⟨.wait :: p, some m, taken, lost⟩ .host =
    ⟨.wait :: p, some m, taken, lost⟩ := rfl

@[simp]
theorem step_wait_empty : step ⟨.wait :: p, none, taken, lost⟩ .host = ⟨p, none, taken, lost⟩ := rfl

@[simp]
theorem step_send : step ⟨.send m :: p, slot, taken, lost⟩ .host =
    ⟨p, some m, taken, lost ++ slot.toList⟩ := rfl

@[simp]
theorem step_take : step ⟨p, some m, taken, lost⟩ .device =
    ⟨p, none, taken ++ [m], lost⟩ := rfl

end

/-- The messages of a program. -/
def messages (program : List (Stmt μ)) : List μ :=
  program.filterMap fun
    | .wait => none
    | .send m => some m

@[simp]
theorem messages_nil : messages ([] : List (Stmt μ)) = [] := rfl

@[simp]
theorem messages_wait (p : List (Stmt μ)) : messages (.wait :: p) = messages p := rfl

@[simp]
theorem messages_send (m : μ) (p : List (Stmt μ)) :
    messages (.send m :: p) = m :: messages p := rfl

theorem messages_append (p q : List (Stmt μ)) :
    messages (p ++ q) = messages p ++ messages q := List.filterMap_append

/-- The host waits right before each message. -/
inductive Polite : List (Stmt μ) → Prop
  | nil : Polite []
  | wait {p : List (Stmt μ)} : Polite p → Polite (.wait :: p)
  | send {p : List (Stmt μ)} {m : μ} : Polite p → Polite (.wait :: .send m :: p)

theorem Polite.append {p q : List (Stmt μ)} (hp : Polite p) (hq : Polite q) :
    Polite (p ++ q) := by
  induction hp with
  | nil => exact hq
  | wait _ ih => exact .wait ih
  | send _ ih => exact .send ih

/-! ## Safety -/

/-- No message is lost, and the messages are at the device, in the buffer or ahead, in their
order. The host is at a place where it waits, or has just seen the buffer empty. -/
structure Sound (all : List μ) (s : State μ) : Prop where
  place : Polite s.program ∨
    s.slot = none ∧ ∃ m p, s.program = .send m :: p ∧ Polite p
  lost : s.lost = []
  whole : s.taken ++ s.slot.toList ++ messages s.program = all

variable {all : List μ} {s : State μ} {p : List (Stmt μ)}

theorem Sound.start (hPolite : Polite p) : Sound (messages p) (start p) :=
  ⟨Or.inl hPolite, rfl, rfl⟩

/-- The step lemma. -/
theorem Sound.step (h : Sound all s) (turn : Party) : Sound all (step s turn) := by
  obtain ⟨program, slot, taken, lost⟩ := s
  obtain ⟨hPlace, hLost, hWhole⟩ := h
  cases turn with
  | device =>
    cases slot with
    | none => exact ⟨hPlace, hLost, hWhole⟩
    | some m =>
      refine ⟨?_, hLost, ?_⟩
      · rcases hPlace with hPolite | ⟨hFull, -⟩
        · exact Or.inl hPolite
        · cases hFull
      · rw [← hWhole, step_take, Option.toList_none, List.append_nil, Option.toList_some]
  | host =>
    rcases hPlace with hPolite | ⟨hEmpty, m, rest, hProgram, hPolite⟩
    · cases hPolite with
      | nil => exact ⟨Or.inl .nil, hLost, hWhole⟩
      | wait hRest =>
        cases slot with
        | none => exact ⟨Or.inl hRest, hLost, hWhole⟩
        | some m => exact ⟨Or.inl (.wait hRest), hLost, hWhole⟩
      | send hRest =>
        cases slot with
        | none => exact ⟨Or.inr ⟨rfl, _, _, rfl, hRest⟩, hLost, hWhole⟩
        | some m => exact ⟨Or.inl (.send hRest), hLost, hWhole⟩
    · -- The message goes into the empty buffer.
      obtain rfl : slot = none := hEmpty
      obtain rfl : program = .send m :: rest := hProgram
      refine ⟨Or.inl hPolite, ?_, ?_⟩
      · rw [step_send, Option.toList_none, List.append_nil]
        exact hLost
      · show taken ++ [m] ++ messages rest = all
        rw [← hWhole, Option.toList_none, List.append_nil, messages_send, List.append_assoc,
          List.singleton_append]

/-- The run lemma. -/
theorem Sound.steps (hPolite : Polite p) (turns : List Party) :
    Sound (messages p) (steps Mailbox.step (Mailbox.start p) turns) :=
  steps_invariant (fun _ turn h => h.step turn) (Sound.start hPolite)

theorem Sound.taken_prefix (h : Sound all s) : s.taken <+: all := by
  rw [← h.whole, List.append_assoc]
  exact List.prefix_append _ _

theorem Sound.taken_eq (h : Sound all s) (hThrough : s.program = []) (hEmpty : s.slot = none) :
    s.taken = all := by
  rw [← h.whole, hThrough, hEmpty, Option.toList_none, messages_nil, List.append_nil,
    List.append_nil]

/-! ## Progress -/

/-- What is left to do: two for each statement, as a message has to be taken once more. -/
def left (s : State μ) : ℕ := 2 * s.program.length + s.slot.toList.length

theorem step_eq_or_left_lt (s : State μ) (turn : Party) :
    step s turn = s ∨ left (step s turn) < left s := by
  obtain ⟨program, slot, taken, lost⟩ := s
  cases turn with
  | device =>
    cases slot with
    | none => exact Or.inl rfl
    | some m => exact Or.inr (Nat.lt_succ_self _)
  | host =>
    rcases program with _ | ⟨_ | m, rest⟩
    · exact Or.inl rfl
    · cases slot with
      | none =>
        right
        simp [step, left]
      | some m => exact Or.inl rfl
    · right
      simp only [step, left, List.length_cons, Option.toList_some, List.length_nil]
      omega

/-- With a message in the buffer the device can go on, and else the host. -/
theorem exists_helpful (s : State μ) (hLeft : left s ≠ 0) :
    ∃ party, ∀ turn, turn = party → left (step s turn) < left s := by
  obtain ⟨program, slot, taken, lost⟩ := s
  cases slot with
  | some m =>
    refine ⟨.device, ?_⟩
    rintro turn rfl
    exact Nat.lt_succ_self _
  | none =>
    refine ⟨.host, ?_⟩
    rintro turn rfl
    rcases program with _ | ⟨_ | m, rest⟩
    · exact absurd rfl hLeft
    · simp [left]
    · simp [left]
      omega

theorem through_of_left_eq_zero (hLeft : left s = 0) : s.program = [] ∧ s.slot = none := by
  obtain ⟨program, slot, taken, lost⟩ := s
  cases slot with
  | none =>
    refine ⟨List.length_eq_zero_iff.mp ?_, rfl⟩
    show program.length = 0
    simp only [left, Option.toList_none, List.length_nil] at hLeft
    omega
  | some m => simp [left] at hLeft

/-- When both go on, the host comes to its end and the buffer is empty. -/
theorem exists_through (s : State μ) {schedule : ℕ → Party} (hFair : Fair id schedule) :
    ∃ n, ∀ k, (stateAt step s schedule (n + k)).program = [] ∧
      (stateAt step s schedule (n + k)).slot = none := by
  obtain ⟨n, hDone⟩ := exists_done step_eq_or_left_lt exists_helpful hFair s
  exact ⟨n, fun k => through_of_left_eq_zero (hDone k)⟩

end DebugCode.Lib.Mailbox
