import Mathlib.Tactic.Common

/-!
# Commands behind a busy flag

A host has a list of commands for a device. It reads the status of the device before each one,
and sends the command when the device is ready. When the device is busy it goes on with some
list of commands, which may differ from the one it had: a host that only waits goes on with the
same.

* `ready_before`: the host sends only right behind a status that was not busy.
* `sent_of_wait`: where the host waits it sends the command, and goes on with the status values
  behind the first one that is not busy.
* `sent_of_waits`: a host that only waits sends its commands, once each.
-/

namespace DebugCode.Lib

variable {σ κ : Type*}

/-- What a host does at the device. -/
inductive Act (σ κ : Type*)
  | poll (status : σ)
  | send (command : κ)

/-- The commands of what a host did. -/
def sent (acts : List (Act σ κ)) : List κ :=
  acts.filterMap fun
    | .poll _ => none
    | .send c => some c

@[simp]
theorem sent_cons_poll (s : σ) (acts : List (Act σ κ)) : sent (.poll s :: acts) = sent acts := rfl

@[simp]
theorem sent_cons_send (c : κ) (acts : List (Act σ κ)) :
    sent (.send c :: acts) = c :: sent acts := rfl

variable (busy : σ → Prop) [DecidablePred busy] (retry : List κ → List κ)

/-- What the host does with the commands on the status values that the device gives, `none` when
it is not through with them. After a busy status it goes on with `retry` of its commands. -/
def converse : List κ → List σ → Option (List (Act σ κ))
  | [], _ => some []
  | _ :: _, [] => none
  | c :: cs, s :: ss =>
    if busy s then (converse (retry (c :: cs)) ss).map (.poll s :: ·)
    else (converse cs ss).map (.poll s :: .send c :: ·)

/-- The status values behind the first one that is not busy. -/
def behindReady (ss : List σ) : List σ := (ss.dropWhile fun s => decide (busy s)).drop 1

variable {busy retry}

theorem behindReady_of_busy {s : σ} (hBusy : busy s) (ss : List σ) :
    behindReady busy (s :: ss) = behindReady busy ss := by
  rw [behindReady, List.dropWhile_cons, if_pos (decide_eq_true hBusy), behindReady]

theorem behindReady_of_ready {s : σ} (hReady : ¬ busy s) (ss : List σ) :
    behindReady busy (s :: ss) = ss := by
  rw [behindReady, List.dropWhile_cons, if_neg (mt decide_eq_true_iff.mp hReady), List.drop_one,
    List.tail_cons]

variable {c : κ} {cs : List κ} {s : σ} {ss : List σ} {acts : List (Act σ κ)}

theorem converse_nil : converse busy retry [] ss = some [] := by
  rw [converse]

theorem converse_nil_ne {a : Act σ κ} {before after : List (Act σ κ)} :
    converse busy retry [] ss ≠ some (before ++ a :: after) := by
  rw [converse_nil, Ne, Option.some.injEq, eq_comm]
  exact List.append_ne_nil_of_right_ne_nil _ (List.cons_ne_nil _ _)

theorem converse_busy (hBusy : busy s) :
    converse busy retry (c :: cs) (s :: ss) =
      (converse busy retry (retry (c :: cs)) ss).map (.poll s :: ·) := by
  rw [converse, if_pos hBusy]

theorem converse_ready (hReady : ¬ busy s) :
    converse busy retry (c :: cs) (s :: ss) =
      (converse busy retry cs ss).map (.poll s :: .send c :: ·) := by
  rw [converse, if_neg hReady]

/-- Every command is sent right behind a status that was not busy. -/
theorem ready_before {d : κ} {before after : List (Act σ κ)}
    (hActs : converse busy retry cs ss = some (before ++ .send d :: after)) :
    ∃ earlier s, before = earlier ++ [.poll s] ∧ ¬ busy s := by
  induction ss generalizing cs before with
  | nil =>
    cases cs with
    | nil => exact absurd hActs converse_nil_ne
    | cons c cs => cases hActs
  | cons s ss ih =>
    cases cs with
    | nil => exact absurd hActs converse_nil_ne
    | cons c cs =>
      by_cases hBusy : busy s
      · rw [converse_busy hBusy, Option.map_eq_some_iff] at hActs
        obtain ⟨later, hLater, hSplit⟩ := hActs
        cases before with
        | nil => cases hSplit
        | cons a before =>
          obtain ⟨rfl, rfl⟩ := List.cons.inj hSplit
          obtain ⟨earlier, s', rfl, hReady⟩ := ih hLater
          exact ⟨.poll s :: earlier, s', rfl, hReady⟩
      · rw [converse_ready hBusy, Option.map_eq_some_iff] at hActs
        obtain ⟨later, hLater, hSplit⟩ := hActs
        rcases before with _ | ⟨a, _ | ⟨b, before⟩⟩
        · cases hSplit
        · -- The first command of all, right behind the status just read.
          obtain ⟨rfl, -⟩ := List.cons.inj hSplit
          exact ⟨[], s, rfl, hBusy⟩
        · obtain ⟨rfl, hTail⟩ := List.cons.inj hSplit
          obtain ⟨rfl, rfl⟩ := List.cons.inj hTail
          obtain ⟨earlier, s', rfl, hReady⟩ := ih hLater
          exact ⟨.poll s :: .send c :: earlier, s', rfl, hReady⟩

/-- Where the host waits, it sends its command and goes on behind the first ready status. -/
theorem sent_of_wait (hWait : retry (c :: cs) = c :: cs)
    (hActs : converse busy retry (c :: cs) ss = some acts) :
    ∃ rest, converse busy retry cs (behindReady busy ss) = some rest ∧
      sent acts = c :: sent rest := by
  induction ss generalizing acts with
  | nil => cases hActs
  | cons s ss ih =>
    by_cases hBusy : busy s
    · rw [converse_busy hBusy, hWait, Option.map_eq_some_iff] at hActs
      obtain ⟨later, hLater, rfl⟩ := hActs
      rw [behindReady_of_busy hBusy, sent_cons_poll]
      exact ih hLater
    · rw [converse_ready hBusy, Option.map_eq_some_iff] at hActs
      obtain ⟨rest, hRest, rfl⟩ := hActs
      rw [behindReady_of_ready hBusy]
      exact ⟨rest, hRest, rfl⟩

/-- A host that only waits sends its commands. -/
theorem sent_of_waits (hActs : converse busy id cs ss = some acts) : sent acts = cs := by
  induction cs generalizing ss acts with
  | nil =>
    rw [converse_nil, Option.some.injEq] at hActs
    rw [← hActs]
    rfl
  | cons c cs ih =>
    obtain ⟨rest, hRest, hSent⟩ := sent_of_wait rfl hActs
    rw [hSent, ih hRest]

end DebugCode.Lib
