import DistribKV.Node.Bounds
import Mathlib.Order.Bounds.Basic

/-!
# The commit rule

`updateCommitIndex` of `raft/replication.go` against the rule it is written for: an
index may be committed when more than half of the cluster holds it and its entry is of
the leader's term.  The code scans the log downwards and stops at the highest index
that a majority holds, whatever the term of its entry.  Going on would not help: the
terms along a log do not decrease, so no entry below is of a later term.
-/

namespace DistribKV.Raft

/-- The rule: the entry at a new index is of the current term, and more than half of
the cluster, the leader included, holds it. -/
structure Committable (r : Raft) (n : Nat) : Prop where
  new : r.commitIndex < n
  entry : ∃ entry ∈ r.log, entry.index = n ∧ entry.term = r.currentTerm
  majority : r.peers.length + 1 < 2 * r.replicas n

variable {r : Raft}

/-- The test of the code is the test of the rule. -/
theorem half_lt_iff (peers count : Nat) : count > (peers + 1) / 2 ↔ peers + 1 < 2 * count := by
  omega

/-! ## Indices of a placed log -/

/-- An entry is found at the offset of its index. -/
theorem Placed.entryAt_index (placed : r.Placed) {entry : LogEntry} (member : entry ∈ r.log) :
    entryAt r.log ((entry.index : Int) - r.logBase - 1) = some entry := by
  obtain ⟨k, found⟩ := List.mem_iff_getElem?.mp member
  have index := placed.aligned k entry found
  have offset : (entry.index : Int) - r.logBase - 1 = (k : Nat) := by omega
  rw [offset, entryAt_natCast, found]

theorem Placed.index_le (placed : r.Placed) {entry : LogEntry} (member : entry ∈ r.log) :
    entry.index ≤ r.log.length + r.logBase := by
  obtain ⟨k, found⟩ := List.mem_iff_getElem?.mp member
  have bound := (List.getElem?_eq_some_iff.mp found).1
  have index := placed.aligned k entry found
  omega

/-- Terms do not decrease with the index. -/
theorem Ordered.term_le (ordered : r.Ordered) (placed : r.Placed) {earlier later : LogEntry}
    (first : earlier ∈ r.log) (second : later ∈ r.log) (le : earlier.index ≤ later.index) :
    earlier.term ≤ later.term := by
  obtain ⟨i, inFirst, rfl⟩ := List.mem_iff_getElem.mp first
  obtain ⟨j, inSecond, rfl⟩ := List.mem_iff_getElem.mp second
  have atFirst := placed.aligned i _ (List.getElem?_eq_getElem inFirst)
  have atSecond := placed.aligned j _ (List.getElem?_eq_getElem inSecond)
  rcases Nat.lt_or_eq_of_le (show i ≤ j by omega) with before | same
  · exact List.pairwise_iff_getElem.mp ordered.sorted i j inFirst inSecond before
  · subst same
    exact Nat.le_refl _

/-! ## The scan -/

/-- The indices at or below `start` that may be the new commit index. -/
def candidates (r : Raft) (start : Nat) : Set Nat :=
  insert r.commitIndex {n | r.Committable n ∧ n ≤ start}

/-- Where the rule allows nothing, the commit index stays. -/
theorem isGreatest_candidates {start : Nat} (nothing : ∀ n, r.Committable n → start < n) :
    IsGreatest (r.candidates start) r.commitIndex := by
  refine ⟨Set.mem_insert _ _, ?_⟩
  rintro n (rfl | ⟨committable, le⟩)
  · exact Nat.le_refl _
  · exact absurd le (Nat.not_le.mpr (nothing n committable))

/-- An index that the rule does not allow makes no difference. -/
theorem candidates_succ {start : Nat} (refused : ¬ r.Committable (start + 1)) :
    r.candidates (start + 1) = r.candidates start := by
  have same : {n | r.Committable n ∧ n ≤ start + 1} = {n | r.Committable n ∧ n ≤ start} := by
    ext n
    refine and_congr_right fun committable => ⟨fun le => ?_, Nat.le_succ_of_le⟩
    rcases Nat.lt_or_eq_of_le le with below | here
    · exact Nat.le_of_lt_succ below
    · exact absurd (here ▸ committable) refused
  rw [candidates, candidates, same]

/-- The downward scan ends at the greatest index that the rule allows. -/
theorem isGreatest_scanCommit (placed : r.Placed) (ordered : r.Ordered) (start : Nat) :
    IsGreatest (r.candidates start) (r.scanCommit start).commitIndex := by
  induction start with
  | zero =>
      exact isGreatest_candidates fun n committable => Nat.zero_lt_of_lt committable.new
  | succ start ih =>
      unfold scanCommit
      split
      next above =>
        split
        next missing =>
          rw [candidates_succ]
          · exact ih
          · intro committable
            obtain ⟨entry, member, index, -⟩ := committable.entry
            have found := placed.entryAt_index member
            rw [index] at found
            cases missing.symm.trans found
        next entry found =>
          obtain ⟨index, member⟩ := placed.index_of_found found
          split
          next majority =>
            split
            next ownTerm =>
              have committable : r.Committable (start + 1) :=
                ⟨above, ⟨entry, member, index, ownTerm⟩, (half_lt_iff _ _).mp majority⟩
              refine ⟨.inr ⟨committable, Nat.le_refl _⟩, ?_⟩
              rintro n (rfl | ⟨-, le⟩)
              · exact Nat.le_of_lt above
              · exact le
            next otherTerm =>
              -- whatever lies below is of the same term or an earlier one
              refine isGreatest_candidates fun n committable => Nat.lt_of_not_le fun le => ?_
              obtain ⟨lower, held, rfl, ownTerm⟩ := committable.entry
              have later := ordered.term_le placed held member (index ▸ le)
              have bound := ordered.bounded entry member
              exact otherTerm (Nat.le_antisymm bound (ownTerm ▸ later))
          next minority =>
            rw [candidates_succ]
            · exact ih
            · intro committable
              exact minority ((half_lt_iff _ _).mpr committable.majority)
      next below =>
        refine isGreatest_candidates fun n committable => ?_
        exact Nat.lt_of_le_of_lt (Nat.not_lt.mp below) committable.new

/-- `updateCommitIndex` computes the commit rule: for every leader with a log in order,
any number of peers and whatever it has recorded of them, the new commit index is the
greatest of the old one and the indices that the rule allows.  Nothing else changes,
and the apply loop is woken exactly when the commit index has grown. -/
theorem updateCommitIndex_isGreatest (leads : r.state = .leader) (placed : r.Placed)
    (ordered : r.Ordered) :
    IsGreatest (insert r.commitIndex {n | r.Committable n}) r.updateCommitIndex.commitIndex ∧
      r.updateCommitIndex =
        if r.commitIndex < r.updateCommitIndex.commitIndex then
          { r with commitIndex := r.updateCommitIndex.commitIndex }.signalCommit
        else r := by
  constructor
  · have greatest := isGreatest_scanCommit placed ordered (r.log.length + r.logBase)
    have whole : {n | r.Committable n ∧ n ≤ r.log.length + r.logBase} = {n | r.Committable n} := by
      ext n
      refine and_iff_left_of_imp fun committable => ?_
      obtain ⟨entry, member, rfl, -⟩ := committable.entry
      exact placed.index_le member
    rw [candidates, whole] at greatest
    rw [updateCommitIndex, if_neg (not_not.mpr leads)]
    exact greatest
  · rcases r.updateCommitIndex_cases with same | ⟨n, _, -, above, -, -, -, moved⟩
    · rw [same, if_neg (Nat.lt_irrefl _)]
    · rw [moved, if_pos above]
      rfl

/-- The leader of five nodes in term `3`, with one entry folded into a snapshot. -/
def leaderOfFive : Raft :=
  { serverId := 0
    peers := [⟨1, 5, 4⟩, ⟨2, 5, 4⟩, ⟨3, 4, 3⟩, ⟨4, 1, 0⟩]
    currentTerm := 3
    state := .leader
    logBase := 1
    commitIndex := 1
    log := [⟨2, 2, [1]⟩, ⟨3, 3, [2]⟩, ⟨4, 3, [3]⟩, ⟨5, 3, [4]⟩] }

/-- Two peers have index `4`, which makes a majority with the leader. -/
theorem updateCommitIndex_isGreatest_five :
    IsGreatest (insert 1 {n | leaderOfFive.Committable n}) 4 ∧
      leaderOfFive.updateCommitIndex = { leaderOfFive with commitIndex := 4 }.signalCommit := by
  have aligned : Aligned leaderOfFive.logBase leaderOfFive.log := by decide
  have computed : leaderOfFive.updateCommitIndex.commitIndex = 4 := by decide
  obtain ⟨greatest, changes⟩ := updateCommitIndex_isGreatest (r := leaderOfFive) rfl
    ⟨aligned, by decide⟩ ⟨by decide, by decide⟩
  rw [computed] at greatest changes
  exact ⟨greatest, changes⟩

end DistribKV.Raft
