import Mathlib.Logic.Basic

/-!
# Two machines on the same inputs

Two total step functions that read one list of inputs.  A relation between their
states, which may speak of the inputs so far, holds after every input if every input is
one at which it is kept.  Machines with outputs give the same outputs when a relation
that each input keeps says so.
-/

namespace Consensus

universe u v w x

variable {σ : Type u} {τ : Type v} {ι : Type w} {ω : Type x}

/-- Every input is one that may come after those before it. -/
def Admitted (ok : List ι → ι → Prop) (past : List ι) : List ι → Prop
  | [] => True
  | i :: rest => ok past i ∧ Admitted ok (past ++ [i]) rest

instance decidableAdmitted (ok : List ι → ι → Prop) [∀ past i, Decidable (ok past i)] :
    ∀ past inputs : List ι, Decidable (Admitted ok past inputs)
  | _, [] => inferInstanceAs (Decidable True)
  | past, i :: rest =>
      have := decidableAdmitted ok (past ++ [i]) rest
      inferInstanceAs (Decidable (ok past i ∧ Admitted ok (past ++ [i]) rest))

/-- Inputs of which each one stands in a relation to all that come later. -/
theorem Admitted.of_pairwise {ok : List ι → ι → Prop} {rel : ι → ι → Prop}
    {past inputs : List ι} (admitted : Admitted ok past inputs)
    (pairwise : (past ++ inputs).Pairwise rel) :
    Admitted (fun past i => (∀ j ∈ past, rel j i) ∧ ok past i) past inputs := by
  induction inputs generalizing past with
  | nil => trivial
  | cons i rest ih =>
      refine ⟨⟨fun j mem => ?_, admitted.1⟩, ih admitted.2 (by simpa using pairwise)⟩
      exact (List.pairwise_append.mp pairwise).2.2 j mem i List.mem_cons_self

/-- The states stay related along a list of inputs. -/
theorem related_of_admitted {first : σ → ι → σ} {second : τ → ι → τ}
    {related : List ι → σ → τ → Prop} {ok : List ι → ι → Prop}
    (step : ∀ {past s t i}, related past s t → ok past i →
      related (past ++ [i]) (first s i) (second t i))
    {past inputs : List ι} {s : σ} {t : τ} (start : related past s t)
    (admitted : Admitted ok past inputs) (n : Nat) :
    related (past ++ inputs.take n) ((inputs.take n).foldl first s)
      ((inputs.take n).foldl second t) := by
  induction inputs generalizing past s t n with
  | nil => simpa using start
  | cons i rest ih =>
      cases n with
      | zero => simpa using start
      | succ n =>
          have later := ih (step start admitted.1) admitted.2 n
          rwa [List.append_assoc] at later

/-- What a machine answers to a list of inputs. -/
def outputs (step : σ → ι → σ × ω) : σ → List ι → List ω
  | _, [] => []
  | s, i :: rest => (step s i).2 :: outputs step (step s i).1 rest

/-- Machines in related states answer alike if every input gets the same answer from
both and keeps their states related. -/
theorem outputs_eq_of_related {first : σ → ι → σ × ω} {second : τ → ι → τ × ω}
    (related : σ → τ → Prop)
    (step : ∀ s t i, related s t →
      (first s i).2 = (second t i).2 ∧ related (first s i).1 (second t i).1)
    {s : σ} {t : τ} (start : related s t) (inputs : List ι) :
    outputs first s inputs = outputs second t inputs := by
  induction inputs generalizing s t with
  | nil => rfl
  | cons i rest ih =>
      obtain ⟨same, related⟩ := step s t i start
      exact congrArg₂ List.cons same (ih related)

end Consensus
