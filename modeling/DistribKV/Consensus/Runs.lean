import Mathlib.Logic.Basic

/-!
# Runs of a partial step function

A system is a step function that may refuse an action.  `Run step ok` relates
two states connected by accepted actions that all satisfy `ok` in the state they
start from, so that the assumption a result makes about a run is a predicate on
its steps.
-/

namespace Consensus

universe u v

variable {σ : Type u} {α : Type v}

/-- Finite runs in which every step satisfies `ok`. -/
inductive Run (step : σ → α → Option σ) (ok : σ → α → Prop) : σ → σ → Prop where
  | refl (s : σ) : Run step ok s s
  | tail {s t u : σ} {a : α} :
      Run step ok s t → ok t a → step t a = some u → Run step ok s u

namespace Run

variable {step : σ → α → Option σ} {ok weaker : σ → α → Prop} {s t u : σ}

theorem trans (first : Run step ok s t) (second : Run step ok t u) :
    Run step ok s u := by
  induction second with
  | refl => exact first
  | tail _ allowed stepped ih => exact .tail ih allowed stepped

theorem mono (implies : ∀ s a, ok s a → weaker s a) (run : Run step ok s t) :
    Run step weaker s t := by
  induction run with
  | refl => exact .refl _
  | tail _ allowed stepped ih => exact .tail ih (implies _ _ allowed) stepped

/-- The invariant rule: what holds initially and is kept by every allowed step
holds at the end of every run. -/
theorem invariant {inv : σ → Prop} (run : Run step ok s t) (initial : inv s)
    (preserved : ∀ {t u : σ} {a : α}, inv t → ok t a → step t a = some u → inv u) :
    inv t := by
  induction run with
  | refl => exact initial
  | tail _ allowed stepped ih => exact preserved ih allowed stepped

end Run

/-- Perform a list of actions, refusing those that do not satisfy `ok`. -/
def perform (step : σ → α → Option σ) (ok : σ → α → Prop)
    [∀ s a, Decidable (ok s a)] : σ → List α → Option σ
  | s, [] => some s
  | s, a :: rest =>
      if ok s a then
        match step s a with
        | none => none
        | some t => perform step ok t rest
      else none

/-- A performed list of actions is a run. -/
theorem run_of_perform {step : σ → α → Option σ} {ok : σ → α → Prop}
    [∀ s a, Decidable (ok s a)] {actions : List α} {s t : σ}
    (performed : perform step ok s actions = some t) : Run step ok s t := by
  induction actions generalizing s with
  | nil =>
      cases performed
      exact .refl _
  | cons a rest ih =>
      simp only [perform] at performed
      split at performed
      next allowed =>
        split at performed
        · cases performed
        next next stepped =>
          exact (Run.tail (.refl s) allowed stepped).trans (ih performed)
      next => cases performed

/-- A run that reaches a goal, found by performing it. -/
theorem exists_run_of_perform {step : σ → α → Option σ} {ok : σ → α → Prop}
    [∀ s a, Decidable (ok s a)] {s : σ} (actions : List α) (goal : σ → Prop)
    [DecidablePred goal]
    (reached : (perform step ok s actions).any (fun t => decide (goal t)) = true) :
    ∃ t, Run step ok s t ∧ goal t := by
  cases performed : perform step ok s actions with
  | none => simp [performed] at reached
  | some t =>
      rw [performed] at reached
      exact ⟨t, run_of_perform performed, of_decide_eq_true reached⟩

end Consensus
