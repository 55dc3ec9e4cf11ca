import DistribKV.Cluster.Effect

/-!
# What a leader records of its peers

The match index of a peer is zero in a new leader, and later what some answer to a
request of the leader's own term has raised it to.
-/

namespace DistribKV

namespace Raft

variable {r : Raft} {req : InstallSnapshotRequest}

/-- An answer from a higher term is not recorded. -/
theorem handleInstallSnapshotResponse_peers_of_higher {peerId : Int}
    {resp : InstallSnapshotResponse} (higher : r.currentTerm < resp.term) :
    (r.handleInstallSnapshotResponse peerId req resp).peers = r.peers := by
  have path := r.handleInstallSnapshotResponse_path peerId req resp
  generalize r.handleInstallSnapshotResponse peerId req resp = r' at *
  cases path with
  | ignored => rfl
  | demoted leads current higher => exact (Yields.stepDown higher).peers
  | recorded leads current lower => exact absurd higher (Nat.not_lt.mpr lower)

end Raft

namespace Cluster

variable {m : Membership} {s s' : Cluster} {a : Action}

/-- Node `l` is leader of a term. -/
def Leads (s : Cluster) (l : Int) (term : Nat) : Prop :=
  (s.node l).state = .leader ∧ (s.node l).currentTerm = term

instance (s : Cluster) (l : Int) (term : Nat) : Decidable (s.Leads l term) :=
  inferInstanceAs (Decidable (_ ∧ _))

/-- Where the match index of a peer comes from. -/
inductive MatchSource (s : Cluster) (l : Int) (peer : Peer) : Prop where
  | reset (zero : peer.matchIndex = 0)
  | kept {old : Peer} (known : old ∈ (s.node l).peers) (id : old.id = peer.id)
      (index : peer.matchIndex = old.matchIndex)
  | appended {req : AppendEntriesRequest} {resp : AppendEntriesResponse}
      (inNet : .appendEntriesReply l peer.id req resp ∈ s.net) (success : resp.success = true)
      (leads : s.Leads l req.term)
      (index : peer.matchIndex = req.prevLogIndex + req.entries.length)
  | installed {req : InstallSnapshotRequest} {resp : InstallSnapshotResponse}
      (inNet : .installSnapshotReply l peer.id req resp ∈ s.net)
      (current : resp.term ≤ req.term) (leads : s.Leads l req.term)
      (index : peer.matchIndex = req.lastIncludedIndex)

/-- A recorded answer leaves the match index alone or replaces it by its own. -/
theorem matchIndex_of_updatePeer {r : Raft} {peerId : Int} {n : Nat} {peer : Peer}
    (member : peer ∈ (r.updatePeer peerId fun p =>
      { p with matchIndex := max p.matchIndex n, nextIndex := max p.matchIndex n + 1 }).peers) :
    (∃ old ∈ r.peers, old.id = peer.id ∧ peer.matchIndex = old.matchIndex) ∨
      peer.id = peerId ∧ peer.matchIndex = n := by
  obtain ⟨old, known, rfl⟩ := List.mem_map.mp member
  split
  next here =>
    rcases le_total n old.matchIndex with below | above
    · exact .inl ⟨old, known, rfl, max_eq_left below⟩
    · exact .inr ⟨here, max_eq_right above⟩
  · exact .inl ⟨old, known, rfl, rfl⟩

/-- Recording an answer to a snapshot. -/
theorem MatchSource.of_installReply {src dst : Int} {req : InstallSnapshotRequest}
    {resp : InstallSnapshotResponse} {peer : Peer}
    (inNet : .installSnapshotReply src dst req resp ∈ s.net)
    (member : peer ∈ ((s.node src).handleInstallSnapshotResponse dst req resp).peers) :
    MatchSource s src peer := by
  rcases Raft.handleInstallSnapshotResponse_cases (s.node src) dst req resp with
    yields | ⟨leads, term, updated⟩
  · exact .kept (yields.peers ▸ member) rfl rfl
  by_cases higher : (s.node src).currentTerm < resp.term
  · rw [Raft.handleInstallSnapshotResponse_peers_of_higher higher] at member
    exact .kept member rfl rfl
  · rw [updated, Raft.updateCommitIndex_peers] at member
    rcases matchIndex_of_updatePeer member with ⟨old, known, id, index⟩ | ⟨rfl, index⟩
    · exact .kept known id index
    · exact .installed inNet (term ▸ Nat.not_lt.mp higher) ⟨leads, term⟩ index

theorem matchSource_of_step (stepped : s.step m a = some s') {l : Int} {peer : Peer}
    (member : peer ∈ (s'.node l).peers) : MatchSource s l peer := by
  obtain ⟨o, effect, applies⟩ := effect_of_step stepped
  by_cases acts : l = o.node
  case neg =>
    rw [applies.node_of_ne acts] at member
    exact .kept member rfl rfl
  subst acts
  have acted := member
  rw [applies.node_self] at member
  cases effect with
  | yield yields => exact .kept (yields.peers ▸ member) rfl rfl
  | refuseVote _ yields => exact .kept (yields.peers ▸ member) rfl rfl
  | refuseAppend _ yields => exact .kept (yields.peers ▸ member) rfl rfl
  | answerInstall _ yields => exact .kept (yields.peers ▸ member) rfl rfl
  | campaign => exact .kept ((Raft.Yields.resetElectionTimer _).peers ▸ member) rfl rfl
  | grantVote _ grants =>
      rw [grants.result] at member
      exact .kept ((Raft.Yields.adoptTerm _ _).peers ▸ member) rfl rfl
  | promote =>
      obtain ⟨old, -, rfl⟩ := List.mem_map.mp member
      exact .reset rfl
  | replicate _ _ _ stored =>
      rw [stored, Raft.updateCommitIndex_peers] at member
      exact .kept member rfl rfl
  | appendUnsaved _ yields => exact .kept (yields.peers ▸ member) rfl rfl
  | append _ yields _ _ stored =>
      rw [stored] at member
      exact .kept (yields.peers ▸ member) rfl rfl
  | recordMatch inNet leads term success updated =>
      rw [updated, Raft.updateCommitIndex_peers] at member
      rcases matchIndex_of_updatePeer member with ⟨old, known, id, index⟩ | ⟨rfl, index⟩
      · exact .kept known id index
      · exact .appended inNet success ⟨leads, term⟩ index
  | retry =>
      obtain ⟨old, known, rfl⟩ := List.mem_map.mp member
      split
      · exact .kept known rfl rfl
      · exact .kept known rfl rfl
  | install _ installs installed =>
      rw [installed] at member
      exact .kept (installs.yields.peers ▸ member) rfl rfl
  | recordInstall inNet =>
      simp only [step, if_pos inNet, deliver] at stepped
      cases stepped
      simp only [setNode, Function.update_self] at acted
      exact .of_installReply inNet acted
  | compact _ _ _ _ compacted =>
      rw [compacted] at member
      exact .kept member rfl rfl
  | @restart i =>
      obtain ⟨_, _, _, _, _, _, _, restarted⟩ := (s.node i).restart_eq
      simp only [restarted] at member
      obtain ⟨id, -, rfl⟩ := List.mem_map.mp member
      exact .reset rfl
  | _ => exact .kept member rfl rfl

end Cluster

end DistribKV
