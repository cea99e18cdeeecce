import Mathlib.Data.List.Induction

/-!
# Runs of a machine

A machine is a start state and a partial step function. A run keeps the record of its
steps: the state in which each one was taken and the action taken.

* `Run.invariant`: what holds at the start and is kept by every step holds after every run;
  the invariant may speak about the record.
* `Run.step_of_append`: every step of the record was taken in a state the run came to.
* `Run.preserved`: what every step keeps holds from a point of the run on.
* `Run.of_exec`: a list of actions that can be executed is a run.
-/

namespace DebugCode.Lib

/-- `step s a` is the state after action `a`, `none` where `a` cannot happen in `s`. -/
structure Machine (σ α : Type) where
  start : σ
  step : σ → α → Option σ

namespace Machine

variable {σ α : Type} (M : Machine σ α)

/-- The runs of a machine, with the record of the steps and the state reached. -/
inductive Run : List (σ × α) → σ → Prop
  | nil : Run [] M.start
  | snoc {ps : List (σ × α)} {s s' : σ} {a : α} :
      Run ps s → M.step s a = some s' → Run (ps ++ [(s, a)]) s'

/-- The state after a list of actions. -/
def exec (s : σ) : List α → Option σ
  | [] => some s
  | a :: as => (M.step s a).bind fun s' => exec s' as

variable {M}

theorem exec_append (s : σ) (as bs : List α) :
    M.exec s (as ++ bs) = (M.exec s as).bind fun s' => M.exec s' bs := by
  induction as generalizing s with
  | nil => rfl
  | cons a as ih =>
    show (M.step s a).bind (fun s' => M.exec s' (as ++ bs)) =
      ((M.step s a).bind fun s' => M.exec s' as).bind fun s' => M.exec s' bs
    cases M.step s a with
    | none => rfl
    | some s' => exact ih s'

namespace Run

/-- What holds at the start and is kept by every step holds after every run. -/
theorem invariant {I : List (σ × α) → σ → Prop} (hStart : I [] M.start)
    (hStep : ∀ ps s a s', I ps s → M.step s a = some s' → I (ps ++ [(s, a)]) s')
    {ps : List (σ × α)} {s : σ} (hRun : M.Run ps s) : I ps s := by
  induction hRun with
  | nil => exact hStart
  | snoc _ hNext ih => exact hStep _ _ _ _ ih hNext

/-- The last step of a run. -/
theorem last {qs : List (σ × α)} {p : σ × α} {s : σ} (hRun : M.Run (qs ++ [p]) s) :
    M.Run qs p.1 ∧ M.step p.1 p.2 = some s := by
  generalize hRecord : qs ++ [p] = ps at hRun
  cases hRun with
  | nil => exact absurd hRecord (List.append_ne_nil_of_right_ne_nil _ (List.cons_ne_nil _ _))
  | snoc hRun hStep =>
    obtain ⟨rfl, hLast⟩ := List.append_inj' hRecord rfl
    obtain rfl := List.singleton_inj.mp hLast
    exact ⟨hRun, hStep⟩

/-- Every step of the record was taken in a state the run came to. -/
theorem step_of_append {qs rs : List (σ × α)} {p : σ × α} {s : σ}
    (hRun : M.Run (qs ++ p :: rs) s) : M.Run qs p.1 ∧ ∃ s', M.step p.1 p.2 = some s' := by
  induction rs using List.reverseRecOn generalizing s with
  | nil => exact ⟨hRun.last.1, s, hRun.last.2⟩
  | append_singleton rs r ih =>
    rw [← List.cons_append, ← List.append_assoc] at hRun
    exact ih hRun.last.1

/-- What holds after the beginning of a run and is kept by every step holds at its end. -/
theorem preserved {I : σ → Prop} (hStep : ∀ s a s', I s → M.step s a = some s' → I s')
    {qs rs : List (σ × α)} (hFrom : ∀ s, M.Run qs s → I s) {s : σ} (hRun : M.Run (qs ++ rs) s) :
    I s := by
  induction rs using List.reverseRecOn generalizing s with
  | nil => exact hFrom s (by rwa [List.append_nil] at hRun)
  | append_singleton rs r ih =>
    rw [← List.append_assoc] at hRun
    exact hStep r.1 r.2 s (ih hRun.last.1) hRun.last.2

/-- Going on with a list of actions, with the actions at the end of the record. -/
theorem exec {ps : List (σ × α)} {s s' : σ} (hRun : M.Run ps s) (as : List α)
    (hExec : M.exec s as = some s') :
    ∃ qs, qs.map Prod.snd = as ∧ M.Run (ps ++ qs) s' := by
  induction as generalizing ps s with
  | nil =>
    obtain rfl : s = s' := Option.some.inj hExec
    exact ⟨[], rfl, by rwa [List.append_nil]⟩
  | cons a as ih =>
    obtain ⟨t, hStep, hRest⟩ := Option.bind_eq_some_iff.mp hExec
    obtain ⟨qs, hActions, hLong⟩ := ih (hRun.snoc hStep) hRest
    refine ⟨(s, a) :: qs, ?_, ?_⟩
    · rw [List.map_cons, hActions]
    · rwa [List.append_assoc, List.singleton_append] at hLong

/-- A list of actions that can be executed from the start is a run. -/
theorem of_exec (as : List α) {s : σ} (hExec : M.exec M.start as = some s) :
    ∃ ps, ps.map Prod.snd = as ∧ M.Run ps s := by
  simpa only [List.nil_append] using Run.nil.exec as hExec

end Run

end Machine

end DebugCode.Lib
