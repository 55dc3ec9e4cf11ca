import DistribKV.Raft.Lifecycle

/-!
# One vote per term

The invariant that ties `votedFor` to the votes a node has given so far, and its
preservation by everything a node does.  A vote is a term together with the
candidate it was given to; a candidacy is a vote for oneself.
-/

namespace DistribKV

namespace Raft

/-- The votes given so far are one per term, none is of a term still to come,
and the one of the current term is the one in `votedFor`. -/
structure OneVote (r : Raft) (voted : Nat → Int → Prop) : Prop where
  bound : ∀ {term candidate}, voted term candidate → term ≤ r.currentTerm
  current : ∀ {term candidate}, voted term candidate → term = r.currentTerm →
    r.votedFor = candidate
  unique : ∀ {term candidate other}, voted term candidate → voted term other →
    candidate = other
  valid : ∀ {term candidate}, voted term candidate → candidate ≠ -1

namespace OneVote

variable {r r' : Raft} {voted voted' : Nat → Int → Prop}

theorem of_none (none : ∀ term candidate, ¬ voted term candidate) : OneVote r voted where
  bound given := absurd given (none _ _)
  current given := absurd given (none _ _)
  unique given := absurd given (none _ _)
  valid given := absurd given (none _ _)

/-- The same votes, recorded in another way, on a node with the same vote. -/
theorem congr (oneVote : OneVote r voted) (term : r'.currentTerm = r.currentTerm)
    (vote : r'.votedFor = r.votedFor) (same : ∀ {t c}, voted' t c → voted t c) :
    OneVote r' voted' where
  bound given := term ▸ oneVote.bound (same given)
  current given here := vote ▸ oneVote.current (same given) (here.trans term)
  unique given other := oneVote.unique (same given) (same other)
  valid given := oneVote.valid (same given)

theorem yields (oneVote : OneVote r voted) (yields : Yields r r') : OneVote r' voted where
  bound given := Nat.le_trans (oneVote.bound given) yields.term_le
  current given here := by
    have bound := oneVote.bound given
    have le := yields.term_le
    rw [(yields.same (by omega)).1]
    exact oneVote.current given (by omega)
  unique := oneVote.unique
  valid := oneVote.valid

/-- A vote for a candidate when the node has no other vote in that term. -/
theorem cast {term : Nat} {candidate : Int} (oneVote : OneVote r voted)
    (le : r.currentTerm ≤ term) (free : ∀ {c}, voted term c → c = candidate)
    (valid : candidate ≠ -1) (newTerm : r'.currentTerm = term)
    (newVote : r'.votedFor = candidate)
    (same : ∀ {t c}, voted' t c → voted t c ∨ t = term ∧ c = candidate) :
    OneVote r' voted' where
  bound given := by
    rcases same given with old | ⟨rfl, -⟩
    · exact newTerm ▸ Nat.le_trans (oneVote.bound old) le
    · exact newTerm ▸ Nat.le_refl _
  current given here := by
    rcases same given with old | ⟨-, rfl⟩
    · rw [here, newTerm] at old
      rw [newVote, free old]
    · exact newVote
  unique given other := by
    rcases same given with old | ⟨here, chosen⟩ <;>
      rcases same other with old' | ⟨here', chosen'⟩
    · exact oneVote.unique old old'
    · exact (free (here' ▸ old)).trans chosen'.symm
    · exact chosen.trans (free (here ▸ old')).symm
    · exact chosen.trans chosen'.symm
  valid given := by
    rcases same given with old | ⟨-, rfl⟩
    · exact oneVote.valid old
    · exact valid

/-- A granted vote is the first of its term, or repeats the one already given. -/
theorem grants {req : RequestVoteRequest} (oneVote : OneVote r voted)
    (grants : Grants r req r') (valid : req.candidateId ≠ -1)
    (same : ∀ {t c}, voted' t c → voted t c ∨ t = req.term ∧ c = req.candidateId) :
    OneVote r' voted' := by
  have adopted := oneVote.yields (.adoptTerm r req.term)
  have term : (r.adoptTerm req.term).currentTerm = req.term := by
    rw [adoptTerm_currentTerm, Nat.max_eq_right grants.current]
  refine adopted.cast (Nat.le_of_eq term) ?_ valid ?_ ?_ same
  · intro c given
    have vote := adopted.current given term.symm
    rcases grants.free with none | repeated
    · exact absurd (vote.symm.trans none) (oneVote.valid given)
    · exact vote.symm.trans repeated
  · rw [grants.result]
    exact term
  · rw [grants.result]
    rfl

/-- A candidacy is in a term in which no vote has been given. -/
theorem stands (oneVote : OneVote r voted) (valid : r.serverId ≠ -1)
    (newTerm : r'.currentTerm = r.currentTerm + 1) (newVote : r'.votedFor = r.serverId)
    (same : ∀ {t c}, voted' t c → voted t c ∨ t = r.currentTerm + 1 ∧ c = r.serverId) :
    OneVote r' voted' := by
  refine oneVote.cast (Nat.le_succ _) ?_ valid newTerm newVote same
  intro c given
  have bound := oneVote.bound given
  omega

/-- A restart keeps the invariant when every vote given is older than the stored
term, or is the stored vote. -/
theorem restart (oneVote : OneVote r voted)
    (remembers : ∀ {t c}, voted t c → t < r.persister.term ∨
      t = r.persister.term ∧ c = r.persister.vote) : OneVote r.restart voted := by
  refine ⟨fun given => ?_, fun given here => ?_, oneVote.unique, oneVote.valid⟩
  · rw [restart_currentTerm]
    rcases remembers given with older | ⟨same, -⟩
    · exact Nat.le_of_lt older
    · exact Nat.le_of_eq same
  · rw [restart_currentTerm] at here
    rcases remembers given with older | ⟨-, stored⟩
    · omega
    · rw [restart_votedFor, stored]

end OneVote

end Raft

end DistribKV
