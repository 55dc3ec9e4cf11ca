import Mathlib.Data.List.Induction

/-!
# The last record under a key

A log of records in which the ones that came later under a key take the place of those
before.
-/

namespace Consensus

universe u v w

variable {α : Type u} {β : Type v} {κ : Type w} {key : α → κ} {log : List α} {x y : α}

/-- The record is the last one under its key. -/
def Latest (key : α → κ) (log : List α) (x : α) : Prop :=
  ∃ before after, log = before ++ x :: after ∧ key x ∉ after.map key

namespace Latest

theorem mem (latest : Latest key log x) : x ∈ log := by
  obtain ⟨before, after, rfl, -⟩ := latest
  exact List.mem_append_right _ List.mem_cons_self

theorem snoc (key : α → κ) (log : List α) (x : α) : Latest key (log ++ [x]) x :=
  ⟨log, [], rfl, List.not_mem_nil⟩

/-- A new record takes the place of every one under its key. -/
theorem eq_of_snoc (latest : Latest key (log ++ [y]) x) (own : key x = key y) : x = y := by
  obtain ⟨before, after, split, last⟩ := latest
  rcases List.eq_nil_or_concat after with rfl | ⟨after, z, rfl⟩
  · exact (List.singleton_inj.mp (List.append_inj' split rfl).2).symm
  · rw [List.concat_eq_append] at split last
    rw [← List.cons_append, ← List.append_assoc] at split
    obtain ⟨-, same⟩ := List.append_inj' split rfl
    cases same
    exact absurd (by simp [own]) last

/-- A new record under another key makes no difference. -/
theorem snoc_of_ne (other : key x ≠ key y) : Latest key (log ++ [y]) x ↔ Latest key log x := by
  constructor
  · rintro ⟨before, after, split, last⟩
    rcases List.eq_nil_or_concat after with rfl | ⟨after, z, rfl⟩
    · obtain ⟨-, same⟩ := List.append_inj' split rfl
      cases same
      exact absurd rfl other
    · rw [List.concat_eq_append] at split last
      rw [← List.cons_append, ← List.append_assoc] at split
      obtain ⟨rfl, -⟩ := List.append_inj' split rfl
      refine ⟨before, after, rfl, fun mem => last ?_⟩
      rw [List.map_append]
      exact List.mem_append_left _ mem
  · rintro ⟨before, after, rfl, last⟩
    refine ⟨before, after ++ [y], by simp, ?_⟩
    simpa [other] using last

/-- One record is the last one. -/
theorem eq (latest : Latest key log x) (latest' : Latest key log y) (same : key x = key y) :
    x = y := by
  induction log using List.reverseRecOn with
  | nil => cases latest.mem
  | append_singleton log z ih =>
      by_cases own : key x = key z
      · rw [latest.eq_of_snoc own, latest'.eq_of_snoc (same.symm.trans own)]
      · exact ih ((snoc_of_ne own).mp latest) ((snoc_of_ne (same ▸ own)).mp latest')

/-- A key that occurs at all occurs a last time. -/
theorem exists_of_mem (key : α → κ) (mem : x ∈ log) : ∃ y, Latest key log y ∧ key y = key x := by
  induction log using List.reverseRecOn with
  | nil => cases mem
  | append_singleton log z ih =>
      by_cases own : key x = key z
      · exact ⟨z, snoc key log z, own.symm⟩
      · have old : x ∈ log := by
          rcases List.mem_append.mp mem with old | new
          · exact old
          · exact absurd (congrArg key (List.mem_singleton.mp new)) own
        obtain ⟨y, latest, same⟩ := ih old
        exact ⟨y, (snoc_of_ne (same ▸ own)).mpr latest, same⟩

/-- A translation that keeps the keys keeps what is last. -/
theorem map_iff {key' : β → κ} {f : α → β} (keeps : ∀ x, key' (f x) = key x) {z : β} :
    Latest key' (log.map f) z ↔ ∃ x, Latest key log x ∧ f x = z := by
  have keys : ∀ records : List α, (records.map f).map key' = records.map key := by
    intro records
    simp [keeps]
  constructor
  · rintro ⟨before, after, split, last⟩
    obtain ⟨before, rest, rfl, rfl, tail⟩ := List.map_eq_append_iff.mp split
    obtain ⟨x, after, rfl, rfl, rfl⟩ := List.map_eq_cons_iff.mp tail
    rw [keys, keeps] at last
    exact ⟨x, ⟨before, after, rfl, last⟩, rfl⟩
  · rintro ⟨x, ⟨before, after, rfl, last⟩, rfl⟩
    refine ⟨before.map f, after.map f, by simp, ?_⟩
    rwa [keys, keeps]

end Latest

end Consensus
