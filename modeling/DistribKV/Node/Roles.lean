import DistribKV.Node.Model

/-!
# Roles

What each step of a node does to its role, to the leader it names and to its
election timer.  A leader has its timer stopped.  It can lose its role to a message
of a higher term in five ways, and these differ in whether they forget the leader
and in whether they arm the timer again.
-/

namespace DistribKV

/-- The part of a node that says whether it leads, whom it names as leader and
whether its election timer runs. -/
structure Role where
  serverId : Int
  state : State
  leaderId : Int
  electionTimer : Option Bool
  shutdown : Bool
  deriving DecidableEq, Repr

namespace Raft

def role (r : Raft) : Role where
  serverId := r.serverId
  state := r.state
  leaderId := r.leaderId
  electionTimer := r.electionTimer
  shutdown := r.shutdown

/-- The timer after it has been armed, if there is one. -/
def rearmed (r : Raft) : Option Bool := r.electionTimer.map fun _ => true

section Role

variable (r : Raft)

@[simp] theorem role_updatePeer (peerId : Int) (f : Peer → Peer) :
    (r.updatePeer peerId f).role = r.role := rfl

@[simp] theorem role_updateCommitIndex : r.updateCommitIndex.role = r.role := by
  obtain ⟨_, _, -, moved⟩ := r.updateCommitIndex_eq
  rw [moved]
  rfl

@[simp] theorem role_advanceCommit (req : AppendEntriesRequest) :
    (r.advanceCommit req).role = r.role := by
  obtain ⟨_, advanced⟩ := r.advanceCommit_eq req
  rw [advanced]
  rfl

/-- The role in which a node goes on that sees a term: higher ones make it a
follower. -/
def stateIn (term : Nat) : State := if term > r.currentTerm then .follower else r.state

theorem role_adoptTerm (term : Nat) :
    (r.adoptTerm term).role = { r.role with state := r.stateIn term } := by
  unfold adoptTerm stateIn
  split <;> rfl

end Role

/-- A reply of a higher term reaches the call that waits for it. -/
def StepsDown (r : Raft) : NodeAction → Prop
  | .requestVoteReply term resp =>
      r.state = .candidate ∧ r.currentTerm = term ∧ r.currentTerm < resp.term
  | .appendEntriesReply _ req resp =>
      r.state = .leader ∧ r.currentTerm = req.term ∧ r.currentTerm < resp.term
  | .installSnapshotReply _ req resp =>
      r.state = .leader ∧ r.currentTerm = req.term ∧ r.currentTerm < resp.term
  | _ => False

end Raft

/-- The ways a step can change the role of a node. -/
inductive RoleEffect (r : Raft) : NodeAction → Role → Prop where
  | keep {a : NodeAction} : RoleEffect r a r.role
  | stand {disk : Disk} (notLeader : r.state ≠ .leader) :
      RoleEffect r (.becomeCandidate disk)
        { r.role with state := .candidate, leaderId := -1 }
  | lead (candidate : r.state = .candidate) :
      RoleEffect r .becomeLeader
        { r.role with
          state := .leader
          leaderId := r.serverId
          electionTimer := r.electionTimer.map fun _ => false }
  /-- A request of a higher term is refused. -/
  | depose {req : RequestVoteRequest} {disk : Disk} (higher : r.currentTerm < req.term)
      (refused : r.logOk req = false ∨ disk.save ≠ none) :
      RoleEffect r (.requestVote req disk) { r.role with state := .follower }
  | grant {req : RequestVoteRequest} {disk : Disk} :
      RoleEffect r (.requestVote req disk)
        { r.role with state := r.stateIn req.term, electionTimer := r.rearmed }
  /-- A leader that hears from another one in its own term does not record it. -/
  | hear {req : AppendEntriesRequest} {disk : Disk} (current : r.currentTerm ≤ req.term) :
      RoleEffect r (.appendEntries req disk)
        { r.role with
          state := r.stateIn req.term
          leaderId := if r.stateIn req.term = .leader then r.leaderId else req.leaderId
          electionTimer := r.rearmed }
  | hearSnapshot {req : InstallSnapshotRequest} {disk : Disk}
      (current : r.currentTerm ≤ req.term) :
      RoleEffect r (.installSnapshot req disk)
        { r.role with
          state := r.stateIn req.term
          leaderId := req.leaderId
          electionTimer := r.rearmed }
  | stepDown {a : NodeAction} (demotes : r.StepsDown a) :
      RoleEffect r a { r.role with state := .follower, leaderId := -1 }
  | restart :
      RoleEffect r .restart
        { r.role with
          state := .follower
          leaderId := -1
          electionTimer := some true
          shutdown := false }

namespace RoleEffect

open Raft

variable {r r' : Raft} {disk : Disk}

theorem of_same {a : NodeAction} (same : r'.role = r.role) :
    RoleEffect r a r'.role := by
  rw [same]
  exact .keep

theorem becomeCandidate {campaign : Option Nat}
    (called : r.becomeCandidate disk = (r', campaign)) :
    RoleEffect r (.becomeCandidate disk) r'.role := by
  rcases becomeCandidate_cases called with
    ⟨rfl, -⟩ | ⟨notLeader, ⟨rfl, -⟩ | ⟨rfl, -⟩⟩
  · exact .keep
  · exact .stand notLeader
  · exact .stand notLeader

theorem requestVote {req : RequestVoteRequest} {reply : Except String RequestVoteResponse}
    (called : r.requestVote req disk = (r', reply)) :
    RoleEffect r (.requestVote req disk) r'.role := by
  -- a refusal matters only in a higher term, where no vote has been given yet
  have refuse : (¬ (((r.adoptTerm req.term).votedFor = -1 ∨
        (r.adoptTerm req.term).votedFor = req.candidateId) ∧ r.logOk req) ∨
        disk.save ≠ none) →
      RoleEffect r (.requestVote req disk) (r.adoptTerm req.term).role := by
    intro refused
    rw [role_adoptTerm]
    by_cases higher : req.term > r.currentTerm
    · have free : (r.adoptTerm req.term).votedFor = -1 := by simp [adoptTerm, higher]
      rw [stateIn, if_pos higher]
      refine .depose higher (refused.imp_left fun refused => ?_)
      simpa [free] using refused
    · rw [stateIn, if_neg higher]
      exact .keep
  cases requestVote_path called with
  | stale lower => exact .keep
  | refused current refuses => exact refuse (.inl refuses)
  | unsaved current failed => exact refuse (.inr (by simp [failed]))
  | granted grants =>
      have role : r'.role =
          { r.role with state := r.stateIn req.term, electionTimer := r.rearmed } := by
        rw [grants.result]
        unfold adoptTerm stateIn
        split <;> rfl
      rw [role]
      exact .grant

/-- Hearing from a leader that is not behind. -/
theorem hears {req : AppendEntriesRequest} {heard : Raft} (current : r.currentTerm ≤ req.term)
    (hears : heard = (r.adoptTerm req.term).hearFromLeader req.leaderId)
    (same : r'.role = heard.role) : RoleEffect r (.appendEntries req disk) r'.role := by
  have role : heard.role = { r.role with
      state := r.stateIn req.term
      leaderId := if r.stateIn req.term = .leader then r.leaderId else req.leaderId
      electionTimer := r.rearmed } := by
    rw [hears]
    unfold Raft.hearFromLeader adoptTerm stateIn
    split
    · rfl
    · by_cases leads : r.state = .leader
      · simp [leads, resetElectionTimerLocked, Raft.role, rearmed]
      · simp [leads, resetElectionTimerLocked, Raft.role, rearmed]
  rw [same, role]
  exact .hear current

theorem appendEntries {req : AppendEntriesRequest}
    {reply : Except String AppendEntriesResponse}
    (called : r.appendEntries req disk = some (r', reply)) :
    RoleEffect r (.appendEntries req disk) r'.role := by
  cases appendEntries_path called with
  | stale lower => exact .keep
  | refused current heard => exact .hears current heard rfl
  | unsaved heard accepts => exact .hears accepts.current heard rfl
  | stored heard accepts => exact .hears accepts.current heard (role_advanceCommit _ req)
  | unchanged heard accepts => exact .hears accepts.current heard (role_advanceCommit _ req)

theorem installSnapshot {req : InstallSnapshotRequest}
    {reply : Except String InstallSnapshotResponse}
    (called : r.installSnapshot req disk = (r', reply)) :
    RoleEffect r (.installSnapshot req disk) r'.role := by
  have role : (r.hearSnapshot req).role = { r.role with
      state := r.stateIn req.term
      leaderId := req.leaderId
      electionTimer := r.rearmed } := by
    unfold Raft.hearSnapshot stateIn
    split <;> rfl
  have heard {heard r' : Raft} (hears : heard = r.hearSnapshot req)
      (current : r.currentTerm ≤ req.term) (same : r'.role = heard.role) :
      RoleEffect r (.installSnapshot req disk) r'.role := by
    rw [same, hears, role]
    exact .hearSnapshot current
  cases installSnapshot_path called with
  | oversized large => exact .keep
  | stale small lower => exact .keep
  | discarded hears small current useless => exact heard hears current rfl
  | unsaved hears installs => exact heard hears installs.current rfl
  | unsavedSnapshot hears installs => exact heard hears installs.current rfl
  | unqueued hears installs => exact heard hears installs.current rfl
  | installed hears installs => exact heard hears installs.current rfl

theorem requestVoteReply {term : Nat} {resp : RequestVoteResponse} {elected : Bool}
    (called : r.handleRequestVoteResponse term resp = (r', elected)) :
    RoleEffect r (.requestVoteReply term resp) r'.role := by
  cases handleRequestVoteResponse_path called with
  | ignored => exact .keep
  | demoted campaigns current higher => exact .stepDown ⟨campaigns, current, higher⟩
  | counted campaigns current granted => exact .keep

theorem appendEntriesReply {peer : Int} {req : AppendEntriesRequest}
    {resp : AppendEntriesResponse} {retry : Bool}
    (called : r.handleAppendEntriesResponse peer req resp = (r', retry)) :
    RoleEffect r (.appendEntriesReply peer req resp) r'.role := by
  cases handleAppendEntriesResponse_path called with
  | ignored => exact .keep
  | demoted leads current higher => exact .stepDown ⟨leads, current, higher⟩
  | recorded leads current success =>
      rw [role_updateCommitIndex, role_updatePeer]
      exact .keep
  | retried leads current => exact .keep

theorem installSnapshotReply {peer : Int} {req : InstallSnapshotRequest}
    {resp : InstallSnapshotResponse} (path : InstallSnapshotReplyPath r peer req resp r') :
    RoleEffect r (.installSnapshotReply peer req resp) r'.role := by
  cases path with
  | ignored => exact .keep
  | demoted leads current higher => exact .stepDown ⟨leads, current, higher⟩
  | recorded leads current lower =>
      rw [role_updateCommitIndex, role_updatePeer]
      exact .keep

end RoleEffect

namespace Node

variable {n n' : Node}

/-- Every step changes the role in one of the listed ways. -/
theorem roleEffect_of_step {a : NodeAction} (stepped : n.step a = some n') :
    RoleEffect n.raft a n'.raft.role := by
  cases a with
  | becomeCandidate disk =>
      cases stepped
      exact .becomeCandidate rfl
  | requestVoteReply term resp =>
      cases stepped
      exact .requestVoteReply rfl
  | becomeLeader =>
      cases stepped
      rcases n.raft.becomeLeader_cases with same | ⟨candidate, promoted⟩
      · exact .of_same (by rw [same])
      · simp only [promoted]
        exact .lead candidate
  | requestVote req disk =>
      simp only [step] at stepped
      cases called : n.raft.requestVote req disk with
      | mk r reply =>
          rw [called] at stepped
          cases reply <;> cases stepped <;> exact .requestVote called
  | appendEntries req disk =>
      simp only [step] at stepped
      split at stepped
      · cases stepped
      next called =>
        cases stepped
        exact .appendEntries called
  | appendEntriesReply peer req resp =>
      cases stepped
      exact .appendEntriesReply rfl
  | installSnapshot req disk =>
      cases stepped
      exact .installSnapshot rfl
  | installSnapshotReply peer req resp =>
      cases stepped
      exact .installSnapshotReply (n.raft.handleInstallSnapshotResponse_path peer req resp)
  | replicate cmd disk =>
      cases stepped
      cases called : n.raft.replicateCommand cmd disk with
      | mk r result =>
          rcases Raft.replicateCommand_cases called with
            ⟨rfl, -⟩ | ⟨-, entry, -, -, rfl⟩
          · exact .keep
          · exact .of_same (by simp only [Raft.role_updateCommitIndex]; rfl)
  | snapshot index data disk =>
      cases stepped
      cases called : n.raft.snapshotUpTo index data disk with
      | mk r err =>
          rcases Raft.snapshotUpTo_cases called with
            rfl | ⟨-, -, entry, -, -, ⟨rfl, -⟩ | ⟨rfl, -⟩ | ⟨rfl, -⟩⟩
          · exact .keep
          · exact .of_same rfl
          · exact .of_same rfl
          · exact .of_same rfl
  | takeEntry =>
      simp only [step] at stepped
      split at stepped
      · cases stepped
      · split at stepped
        · cases stepped
        next taken =>
          obtain ⟨-, entry, -, rfl, rfl⟩ := Raft.takeEntry_cases taken
          cases stepped
          exact .of_same rfl
  | sendEntry =>
      simp only [step] at stepped
      split at stepped
      · cases stepped
      · split at stepped
        · cases stepped
        next r sent =>
          rw [Raft.sendEntry_eq sent] at stepped
          cases stepped
          exact .of_same rfl
  | consume =>
      cases stepped
      exact .of_same rfl
  | restart =>
      cases stepped
      obtain ⟨_, _, _, _, _, _, _, restarted⟩ := n.raft.restart_eq
      simp only [restarted]
      exact .restart

end Node

end DistribKV
