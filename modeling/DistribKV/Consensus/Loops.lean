import Mathlib.Logic.Basic

/-!
# Loops that are repeated until they are done

The body of a loop asks for another round or ends with a result, and it may fail.  The
rule for such loops takes an invariant and a measure: the loop ends, with a result and
after no more rounds than the measure allows.
-/

namespace Consensus

universe u v

variable {σ : Type u} {α : Type v}

/-- Run the body for at most `fuel` rounds.  The result comes with the number of rounds;
`none` when the body fails or is not done by then. -/
def loop (body : σ → Option (σ ⊕ α)) : Nat → σ → Option (Nat × α)
  | 0, _ => none
  | fuel + 1, s =>
      match body s with
      | none => none
      | some (.inr result) => some (1, result)
      | some (.inl next) => (loop body fuel next).map fun (rounds, result) => (rounds + 1, result)

/-- A body that never fails and lowers the measure whenever it asks for another round is
done after at most one round more than the measure. -/
theorem exists_loop_of_measure (body : σ → Option (σ ⊕ α)) (inv : σ → Prop)
    (measure : σ → Nat) (post : α → Prop)
    (step : ∀ s, inv s →
      (∃ next, body s = some (.inl next) ∧ inv next ∧ measure next < measure s) ∨
        ∃ result, body s = some (.inr result) ∧ post result)
    (fuel : Nat) {s : σ} (holds : inv s) (enough : measure s < fuel) :
    ∃ rounds result, loop body fuel s = some (rounds, result) ∧ rounds ≤ measure s + 1 ∧
      post result := by
  induction fuel generalizing s with
  | zero => exact absurd enough (Nat.not_lt_zero _)
  | succ fuel ih =>
      rcases step s holds with ⟨next, again, holds, lower⟩ | ⟨result, done, reached⟩
      · obtain ⟨rounds, result, ended, few, reached⟩ := ih holds (by omega)
        refine ⟨rounds + 1, result, ?_, by omega, reached⟩
        simp only [loop, again, ended, Option.map_some]
      · refine ⟨1, result, ?_, by omega, reached⟩
        simp only [loop, done]

/-- What the rounds keep, each of which is counted, holds of the state that the last round
starts from. -/
theorem exists_last_of_loop (body : σ → Option (σ ⊕ α)) (inv : Nat → σ → Prop)
    (step : ∀ n s next, inv n s → body s = some (.inl next) → inv (n + 1) next)
    {fuel n rounds : Nat} {s : σ} {result : α} (holds : inv n s)
    (ended : loop body fuel s = some (rounds, result)) :
    ∃ k last, rounds = k + 1 ∧ k < fuel ∧ inv (n + k) last ∧ body last = some (.inr result) := by
  induction fuel generalizing n rounds s with
  | zero => cases ended
  | succ fuel ih =>
      unfold loop at ended
      split at ended
      next => cases ended
      next done =>
          cases ended
          exact ⟨0, s, rfl, Nat.succ_pos _, holds, done⟩
      next next again =>
          obtain ⟨⟨rounds', result'⟩, ended, same⟩ := Option.map_eq_some_iff.mp ended
          cases same
          obtain ⟨k, last, rfl, within, holds, done⟩ := ih (step n s next holds again) ended
          refine ⟨k + 1, last, rfl, Nat.succ_lt_succ within, ?_, done⟩
          rw [Nat.add_comm k, ← Nat.add_assoc]
          exact holds

end Consensus
