import DistribKV.Cluster.ElectionSafety

/-!
# Quorums

A candidate is promoted when its votes exceed half the number of its *peers*, and
an index is committed when its replicas exceed half the number of *members*.  In a
cluster of odd size both are strict majorities.  In one of even size half of the
members are enough to win an election, so that two candidates can win with
disjoint votes as soon as half of the members are two or more: `sendRequestVote`
makes its test only after counting the vote of a peer.
-/

namespace DistribKV

open Consensus Cluster

/-! ## The two tests -/

namespace Raft

/-- The node is configured as a member of the cluster. -/
structure MemberOf (r : Raft) (m : Membership) : Prop where
  member : r.serverId ∈ m.ids
  peers : r.peers.map (·.id) = m.ids.filter (· ≠ r.serverId)

/-- The votes with which a node goes on to `becomeLeader`. -/
inductive ElectedBy (r : Raft) (votes : Finset Int) : Prop where
  /-- `becomeCandidate` of a node without peers needs no other vote. -/
  | peerless {term : Nat} (own : votes = {r.serverId})
      (promotes : .becomeLeader r.serverId term ∈ campaignTasks r.serverId r.peers term)
  /-- `sendRequestVote` adds the vote of a peer, and the count passes its test. -/
  | counted {r' : Raft} {resp : RequestVoteResponse} {voter : Int}
      (own : r.serverId ∈ votes) (voted : voter ∈ votes) (other : voter ≠ r.serverId)
      (called : r.handleRequestVoteResponse r.currentTerm resp = (r', true))
      (count : r'.votesReceived = votes.card)

/-- The members which the node takes to hold an index, itself included. -/
def holders (r : Raft) (n : Nat) : Finset Int :=
  insert r.serverId
    ((r.peers.filter fun p => decide (p.matchIndex ≥ n)).map (·.id)).toFinset

end Raft

namespace Membership

variable (m : Membership)

/-- The votes win an election in the cluster. -/
def Elects (votes : Finset Int) : Prop :=
  votes ⊆ population m ∧ ∃ r : Raft, r.MemberOf m ∧ r.ElectedBy votes

/-- The replicas of some index pass the test of `updateCommitIndex`. -/
def Commits (replicas : Finset Int) : Prop :=
  ∃ (r : Raft) (n : Nat), r.MemberOf m ∧ replicas = r.holders n ∧
    r.replicas n > (r.peers.length + 1) / 2

/-- Any two sets of votes that win meet, and each of them meets every set of
replicas that commits. -/
def QuorumsMeet : Prop :=
  (∀ votes votes', m.Elects votes → m.Elects votes' → ∃ i, i ∈ votes ∧ i ∈ votes') ∧
    ∀ votes replicas, m.Elects votes → m.Commits replicas →
      ∃ i, i ∈ votes ∧ i ∈ replicas

end Membership

/-! ## How large they are -/

variable {m : Membership} {r : Raft} {votes replicas : Finset Int}

theorem card_population (m : Membership) : (population m).card = m.ids.length :=
  List.toFinset_card_of_nodup m.nodup

theorem Raft.MemberOf.length_peers (configured : r.MemberOf m) :
    r.peers.length + 1 = m.ids.length := by
  rw [← m.length_others configured.member, ← configured.peers, List.length_map]

/-- Winning votes exceed half the number of peers, and there are two of them
unless the cluster has a single member. -/
theorem Membership.Elects.large (elects : m.Elects votes) :
    m.ids.length ≤ 2 * votes.card ∧ (2 ≤ votes.card ∨ m.ids.length = 1) := by
  obtain ⟨-, r, configured, elected⟩ := elects
  have size := configured.length_peers
  cases elected with
  | peerless own promotes =>
      have alone : r.peers.length = 0 := by
        by_contra peers
        simp [campaignTasks, peers] at promotes
      rw [own, Finset.card_singleton]
      omega
  | counted own voted other called count =>
      have two : 1 < votes.card := Finset.one_lt_card.mpr ⟨_, own, _, voted, other.symm⟩
      rcases Raft.handleRequestVoteResponse_cases called with
        ⟨-, -, -, rfl, passed⟩ | ⟨-, refused, -⟩
      · have passed := of_decide_eq_true passed.symm
        simp only at count
        omega
      · cases refused

theorem Raft.MemberOf.card_holders (configured : r.MemberOf m) (n : Nat) :
    r.holders n ⊆ population m ∧ (r.holders n).card = r.replicas n := by
  have sublist : ((r.peers.filter fun p => decide (p.matchIndex ≥ n)).map (·.id)).Sublist
      (m.ids.filter (· ≠ r.serverId)) := by
    rw [← configured.peers]
    exact List.filter_sublist.map _
  constructor
  · intro id member
    rcases Finset.mem_insert.mp member with rfl | holds
    · exact List.mem_toFinset.mpr configured.member
    · exact List.mem_toFinset.mpr
        (List.mem_of_mem_filter (sublist.subset (List.mem_toFinset.mp holds)))
  · have notSelf : r.serverId ∉
        ((r.peers.filter fun p => decide (p.matchIndex ≥ n)).map (·.id)).toFinset := by
      intro holds
      have inPeers := sublist.subset (List.mem_toFinset.mp holds)
      simp at inPeers
    have nodup := (m.nodup.filter (· ≠ r.serverId)).sublist sublist
    rw [Raft.holders, Finset.card_insert_of_notMem notSelf, List.toFinset_card_of_nodup nodup,
      List.length_map, ← List.countP_eq_length_filter, Raft.replicas, Nat.add_comm]

/-- Committing replicas are a strict majority. -/
theorem Membership.Commits.majority (commits : m.Commits replicas) :
    Majority (population m) replicas := by
  obtain ⟨r, n, configured, rfl, passed⟩ := commits
  obtain ⟨inside, card⟩ := configured.card_holders n
  have size := configured.length_peers
  refine ⟨inside, ?_⟩
  rw [card, card_population]
  omega

/-- A member of the cluster in the candidate role, with the given count. -/
def candidateOf (m : Membership) (i : Int) (votesReceived : Nat) : Raft :=
  { Raft.fresh ⟨i, m.ids.filter (· ≠ i), 0⟩ {} with state := .candidate, votesReceived }

theorem candidateOf_memberOf {i : Int} (member : i ∈ m.ids) (votesReceived : Nat) :
    (candidateOf m i votesReceived).MemberOf m where
  member := member
  peers := by simp [candidateOf, Raft.fresh, Function.comp_def]

/-- A granted vote that passes the test promotes the candidate. -/
theorem candidateOf_counts {i : Int} {votesReceived : Nat}
    (passes : (m.ids.filter (· ≠ i)).length / 2 < votesReceived + 1) :
    (candidateOf m i votesReceived).handleRequestVoteResponse 0 ⟨0, true⟩ =
      (candidateOf m i (votesReceived + 1), true) := by
  have passes : (candidateOf m i votesReceived).peers.length / 2 < votesReceived + 1 := by
    simpa [candidateOf, Raft.fresh] using passes
  rw [Raft.handleRequestVoteResponse, if_neg (by simp [candidateOf, Raft.fresh]),
    if_neg (by simp)]
  simp only [if_true, Prod.mk.injEq, decide_eq_true_eq]
  exact ⟨rfl, passes⟩

/-- Half of the members win an election if they are at least two. -/
theorem Membership.elects_of_half (inside : votes ⊆ population m) (two : 2 ≤ votes.card)
    (half : m.ids.length ≤ 2 * votes.card) : m.Elects votes := by
  obtain ⟨i, own, voter, voted, other⟩ := Finset.one_lt_card.mp two
  have member : i ∈ m.ids := List.mem_toFinset.mp (inside own)
  have size := m.length_others member
  have passes : (m.ids.filter (· ≠ i)).length / 2 < votes.card - 1 + 1 := by omega
  refine ⟨inside, candidateOf m i (votes.card - 1), candidateOf_memberOf member _,
    .counted own voted other.symm (candidateOf_counts passes) ?_⟩
  exact Nat.sub_add_cancel (Nat.le_of_succ_le two)

/-! ## When they meet -/

/-- Quorums of a cluster meet exactly when its size is odd or at most two. -/
theorem quorums_meet_iff (m : Membership) :
    m.QuorumsMeet ↔ m.ids.length % 2 = 1 ∨ m.ids.length ≤ 2 := by
  constructor
  · rintro ⟨meet, -⟩
    by_contra even
    obtain ⟨k, size⟩ : ∃ k, m.ids.length = k + k := ⟨m.ids.length / 2, by omega⟩
    -- split the members into two halves
    obtain ⟨left, inside, card⟩ := Finset.exists_subset_card_eq
      (show k ≤ (population m).card by rw [card_population]; omega)
    have cardRight : (population m \ left).card = k := by
      rw [Finset.card_sdiff_of_subset inside, card_population]
      omega
    obtain ⟨i, inLeft, inRight⟩ := meet left (population m \ left)
      (m.elects_of_half inside (by omega) (by omega))
      (m.elects_of_half Finset.sdiff_subset (by omega) (by omega))
    exact (Finset.mem_sdiff.mp inRight).2 inLeft
  · intro size
    have sizes := card_population m
    refine ⟨fun votes votes' elects elects' => ?_, fun votes replicas elects commits => ?_⟩
    · have large := elects.large
      have large' := elects'.large
      exact exists_mem_inter_of_card_lt elects.1 elects'.1 (by omega)
    · have large := elects.large
      have majority := commits.majority
      have strict := majority.2
      exact exists_mem_inter_of_card_lt elects.1 majority.1 (by omega)

/-- A cluster definition with four nodes. -/
def fourNodes : Membership := ⟨[0, 1, 2, 3], by decide, by decide⟩

/-- Nodes `0` and `2` both win with two votes, and nobody votes twice. -/
theorem disjoint_votes_of_four :
    fourNodes.Elects {0, 1} ∧ fourNodes.Elects {2, 3} ∧
      ¬ ∃ i, i ∈ ({0, 1} : Finset Int) ∧ i ∈ ({2, 3} : Finset Int) := by
  refine ⟨fourNodes.elects_of_half ?_ ?_ ?_, fourNodes.elects_of_half ?_ ?_ ?_, ?_⟩ <;> decide

end DistribKV
