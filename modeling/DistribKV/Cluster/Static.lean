import DistribKV.Cluster.Effect

/-!
# What never changes

Every node keeps its id, its peers and its compaction threshold, only members
leave the follower role, and every call goes from one member to another.  These
facts hold in every run, whatever crashes or gets lost.
-/

namespace DistribKV

/-- The remote node a goroutine talks to. -/
def Task.peer : Task → Option Int
  | .campaign .. => none
  | .sendRequestVote _ peer _ => some peer
  | .becomeLeader .. => none
  | .sendAppendEntries _ peer _ _ => some peer
  | .sendInstallSnapshot _ peer _ => some peer
  | .awaitCommit .. => none

/-- The caller of the call a message belongs to. -/
def Packet.src : Packet → Int
  | .requestVote src _ _ => src
  | .requestVoteReply src _ _ _ => src
  | .appendEntries src _ _ => src
  | .appendEntriesReply src _ _ _ => src
  | .installSnapshot src _ _ _ => src
  | .installSnapshotReply src _ _ _ => src

/-- The callee of the call a message belongs to. -/
def Packet.dst : Packet → Int
  | .requestVote _ dst _ => dst
  | .requestVoteReply _ dst _ _ => dst
  | .appendEntries _ dst _ => dst
  | .appendEntriesReply _ dst _ _ => dst
  | .installSnapshot _ dst _ _ => dst
  | .installSnapshotReply _ dst _ _ => dst

/-- `peer` is another member than `i`. -/
def Membership.Other (m : Membership) (i peer : Int) : Prop := peer ∈ m.ids ∧ peer ≠ i

/-- A member has one peer less than the cluster has members. -/
theorem Membership.length_others (m : Membership) {i : Int} (member : i ∈ m.ids) :
    (m.ids.filter (· ≠ i)).length + 1 = m.ids.length := by
  have erased : m.ids.filter (· ≠ i) = m.ids.erase i := by
    rw [m.nodup.erase_eq_filter]
    congr 1
    funext q
    by_cases same : q = i <;> simp [same]
  rw [erased, List.length_erase_of_mem member]
  exact Nat.sub_add_cancel (List.length_pos_of_mem member)

/-- A goroutine belongs to a member and talks to another member. -/
def Task.Wired (m : Membership) (task : Task) : Prop :=
  task.node ∈ m.ids ∧ ∀ peer, task.peer = some peer → m.Other task.node peer

/-- A message belongs to a call from one member to another. -/
def Packet.Wired (m : Membership) (packet : Packet) : Prop :=
  packet.src ∈ m.ids ∧ m.Other packet.src packet.dst

namespace Cluster

/-- The facts about configuration and roles. -/
structure Static (m : Membership) (threshold : Int) (s : Cluster) : Prop where
  serverId : ∀ i, (s.node i).serverId = i
  peers : ∀ i, (s.node i).peers.map (·.id) = m.ids.filter (· ≠ i)
  threshold : ∀ i, (s.node i).snapshotThreshold = threshold
  role : ∀ i, (s.node i).state ≠ .follower → i ∈ m.ids
  tasks : ∀ task ∈ s.tasks, task.Wired m
  net : ∀ packet ∈ s.net, packet.Wired m
  counted : ∀ i voter term, .counted i voter term ∈ s.history → m.Other i voter

/-- A node transition that respects the configuration of the node. -/
structure Configured (r r' : Raft) : Prop where
  serverId : r'.serverId = r.serverId
  peers : r'.peers.map (·.id) = r.peers.map (·.id)
  threshold : r'.snapshotThreshold = r.snapshotThreshold

theorem updatePeer_ids (r : Raft) (peerId : Int) {f : Peer → Peer}
    (sameId : ∀ p, (f p).id = p.id) :
    (r.updatePeer peerId f).peers.map (·.id) = r.peers.map (·.id) := by
  simp only [Raft.updatePeer, List.map_map]
  apply List.map_congr_left
  intro p _
  simp only [Function.comp_apply]
  split
  · exact sameId p
  · rfl

theorem Configured.of_yields {r r' : Raft} (yields : r.Yields r') : Configured r r' :=
  ⟨yields.serverId, by rw [yields.peers], yields.snapshotThreshold⟩

variable {m : Membership} {threshold : Int} {s s' : Cluster} {a : Action} {o : Outcome}

/-- Every effect respects the configuration. -/
theorem configured_of_effect (effect : Effect m s a o) :
    Configured (s.node o.node) o.raft := by
  cases effect with
  | yield yields => exact .of_yields yields
  | refuseVote _ yields => exact .of_yields yields
  | refuseAppend _ yields => exact .of_yields yields
  | answerInstall _ yields => exact .of_yields yields
  | campaign => exact .of_yields (.resetElectionTimer _)
  | @grantVote src dst req disk r inNet grants =>
      have yields := Raft.Yields.adoptTerm (s.node dst) req.term
      rw [grants.result]
      exact ⟨yields.serverId, congrArg (List.map _) yields.peers, yields.snapshotThreshold⟩
  | promote => exact ⟨rfl, by simp [Raft.enterLeader], rfl⟩
  | replicate _ _ _ stored => exact ⟨by simp [stored, Raft.saved], by simp [stored, Raft.saved],
      by simp [stored, Raft.saved]⟩
  | appendUnsaved _ yields =>
      exact ⟨yields.serverId, congrArg (List.map _) yields.peers, yields.snapshotThreshold⟩
  | append _ yields _ _ stored =>
      rw [stored]
      exact ⟨yields.serverId, congrArg (List.map _) yields.peers, yields.snapshotThreshold⟩
  | recordMatch _ _ _ _ updated =>
      refine ⟨by simp [updated, Raft.updatePeer], ?_, by simp [updated, Raft.updatePeer]⟩
      simp only [updated, Raft.updateCommitIndex_peers]
      exact updatePeer_ids _ _ fun _ => rfl
  | recordInstall _ _ updated =>
      refine ⟨by simp [updated, Raft.updatePeer], ?_, by simp [updated, Raft.updatePeer]⟩
      simp only [updated, Raft.updateCommitIndex_peers]
      exact updatePeer_ids _ _ fun _ => rfl
  | retry => exact ⟨rfl, updatePeer_ids _ _ fun _ => rfl, rfl⟩
  | install _ installs installed =>
      have yields := installs.yields
      rw [installed]
      exact ⟨yields.serverId, congrArg (List.map _) yields.peers, yields.snapshotThreshold⟩
  | compact _ _ _ _ compacted =>
      rw [compacted]
      exact ⟨rfl, rfl, rfl⟩
  | restart =>
      obtain ⟨_, _, _, _, _, _, _, restarted⟩ := (s.node _).restart_eq
      rw [restarted]
      exact ⟨rfl, by simp [Raft.fresh, Raft.config], rfl⟩
  | apply => exact ⟨rfl, rfl, rfl⟩
  | duplicate => exact ⟨rfl, rfl, rfl⟩
  | standUnsaved => exact ⟨rfl, rfl, rfl⟩
  | stand => exact ⟨rfl, rfl, rfl⟩
  | sendRequestVote => exact ⟨rfl, rfl, rfl⟩
  | countVote => exact ⟨rfl, rfl, rfl⟩
  | heartbeat => exact ⟨rfl, rfl, rfl⟩
  | sendAppendEntries => exact ⟨rfl, rfl, rfl⟩
  | startInstall => exact ⟨rfl, rfl, rfl⟩
  | sendInstallSnapshot => exact ⟨rfl, rfl, rfl⟩

namespace Static

theorem initial (m : Membership) (threshold : Int) :
    Static m threshold (init m threshold) where
  serverId _ := rfl
  peers i := by
    simp [init, Raft.newRaft, Raft.loadPersistedState, Raft.fresh, Raft.start,
      Function.comp_def]
  threshold _ := rfl
  role _ leaves := absurd rfl leaves
  tasks _ member := by simp [init] at member
  net _ member := by simp [init] at member
  counted _ _ _ member := by simp [init] at member

variable (static : Static m threshold s)
include static

theorem other_of_mem_peers {i : Int} {p : Peer} (member : p ∈ (s.node i).peers) :
    m.Other i p.id := by
  have inIds : p.id ∈ (s.node i).peers.map (·.id) := List.mem_map_of_mem member
  rw [static.peers, List.mem_filter] at inIds
  simpa [Membership.Other] using inIds

theorem candidate_mem {i : Int} (candidate : (s.node i).state = .candidate) :
    i ∈ m.ids :=
  static.role i (by simp [candidate])

theorem leader_mem {i : Int} (leads : (s.node i).state = .leader) : i ∈ m.ids :=
  static.role i (by simp [leads])

/-- Only members leave the follower role. -/
theorem role_of_effect (effect : Effect m s a o) (leaves : o.raft.state ≠ .follower) :
    o.node ∈ m.ids := by
  cases turn_of_effect effect with
  | keeps keeps =>
      rw [(keeps.of_ne_follower leaves).2] at leaves
      exact static.role _ leaves
  | stands member => exact member
  | leads candidate => exact static.candidate_mem candidate
  | restarts _ raft =>
      rw [raft, Raft.restart_state] at leaves
      exact absurd rfl leaves

theorem wired_fanOut {i : Int} {r : Raft} (member : i ∈ m.ids)
    (peers : r.peers.map (·.id) = (s.node i).peers.map (·.id)) :
    ∀ task ∈ fanOut i r, task.Wired m := by
  intro task inFanOut
  obtain ⟨p, inPeers, rfl⟩ := List.mem_map.mp inFanOut
  refine ⟨member, fun peer same => ?_⟩
  cases same
  have inIds : p.id ∈ (s.node i).peers.map (·.id) := peers ▸ List.mem_map_of_mem inPeers
  obtain ⟨q, inNode, same⟩ := List.mem_map.mp inIds
  rw [← same]
  exact static.other_of_mem_peers inNode

/-- New goroutines are wired. -/
theorem wired_tasks (effect : Effect m s a o) : ∀ task ∈ o.tasks, task.Wired m := by
  have alone : ∀ {task : Task}, task.node ∈ m.ids → task.peer = none → task.Wired m :=
    fun member noPeer => ⟨member, fun peer same => by rw [noPeer] at same; cases same⟩
  have config := configured_of_effect effect
  cases effect with
  | stand member =>
      rintro task (_ | ⟨_, ⟨⟩⟩)
      exact alone member rfl
  | campaign pending =>
      have member := (static.tasks _ pending).1
      intro task inTasks
      simp only [campaignTasks] at inTasks
      split at inTasks
      · rw [List.mem_singleton.mp inTasks]
        exact alone member rfl
      · obtain ⟨p, inPeers, rfl⟩ := List.mem_map.mp inTasks
        refine ⟨member, fun peer same => ?_⟩
        cases same
        exact static.other_of_mem_peers inPeers
  | countVote _ _ candidate =>
      have member := static.candidate_mem candidate
      intro task inTasks
      simp only at inTasks
      split at inTasks
      · rw [List.mem_singleton.mp inTasks]
        exact alone member rfl
      · cases inTasks
  | heartbeat member => exact static.wired_fanOut member rfl
  | startInstall pending =>
      obtain ⟨member, other⟩ := static.tasks _ pending
      rintro task (_ | ⟨_, ⟨⟩⟩)
      exact ⟨member, fun peer same => other peer same⟩
  | replicate member =>
      rintro task (_ | ⟨_, inTasks⟩)
      · exact alone member rfl
      · exact static.wired_fanOut member config.peers task inTasks
  | retry inNet leads =>
      have member := static.leader_mem leads
      rintro task (_ | ⟨_, ⟨⟩⟩)
      refine ⟨member, fun peer same => ?_⟩
      cases same
      exact (static.net _ inNet).2
  | _ =>
      intro task inTasks
      cases inTasks

/-- New messages are wired. -/
theorem wired_packets (effect : Effect m s a o) : ∀ packet ∈ o.packets, packet.Wired m := by
  -- a reply connects the same two nodes as the request it answers
  have answers : ∀ {p : Packet}, p ∈ s.net → ∀ {q : Packet}, q.src = p.src →
      q.dst = p.dst → ∀ r ∈ [q], r.Wired m := by
    intro p inNet q src dst r member
    rw [List.mem_singleton.mp member, Packet.Wired, src, dst]
    exact static.net p inNet
  have calls : ∀ {task : Task}, task ∈ s.tasks → ∀ {q : Packet}, q.src = task.node →
      task.peer = some q.dst → ∀ r ∈ [q], r.Wired m := by
    intro task pending q src dst r member
    obtain ⟨inIds, other⟩ := static.tasks task pending
    rw [List.mem_singleton.mp member, Packet.Wired, src]
    exact ⟨inIds, other _ dst⟩
  cases effect with
  | duplicate inNet => exact answers inNet rfl rfl
  | sendRequestVote pending => exact calls pending rfl rfl
  | sendAppendEntries pending => exact calls pending rfl rfl
  | sendInstallSnapshot pending => exact calls pending rfl rfl
  | refuseVote inNet => exact answers inNet rfl rfl
  | grantVote inNet => exact answers inNet rfl rfl
  | refuseAppend inNet => exact answers inNet rfl rfl
  | append inNet => exact answers inNet rfl rfl
  | answerInstall inNet => exact answers inNet rfl rfl
  | install inNet _ _ replies =>
      intro packet inPackets
      obtain ⟨resp, rfl⟩ := replies packet inPackets
      obtain ⟨inIds, other⟩ := static.net _ inNet
      exact ⟨inIds, other⟩
  | _ =>
      intro packet inPackets
      cases inPackets

/-- The configuration facts survive every step. -/
theorem step (stepped : s.step m a = some s') : Static m threshold s' := by
  obtain ⟨o, effect, applies⟩ := effect_of_step stepped
  have config := configured_of_effect effect
  -- a fact about each node is old, or about the node that acted
  have each : ∀ {P : Int → Raft → Prop}, (∀ i, P i (s.node i)) → P o.node o.raft →
      ∀ i, P i (s'.node i) := by
    intro P old new i
    by_cases acts : i = o.node
    · rw [acts, applies.node_self]
      exact new
    · rw [applies.node_of_ne acts]
      exact old i
  refine
    { serverId := each (P := fun i r => r.serverId = i) static.serverId
        (config.serverId.trans (static.serverId _))
      peers := each (P := fun i r => r.peers.map (·.id) = m.ids.filter (· ≠ i)) static.peers
        (config.peers.trans (static.peers _))
      threshold := each (P := fun _ r => r.snapshotThreshold = threshold) static.threshold
        (config.threshold.trans (static.threshold _))
      role := each (P := fun i r => r.state ≠ .follower → i ∈ m.ids) static.role
        (static.role_of_effect effect)
      tasks := fun task member => ?_
      net := fun packet member => ?_
      counted := fun i voter term member => ?_ }
  · rcases applies.mem_tasks member with new | old
    · exact static.wired_tasks effect task new
    · exact static.tasks task old
  · rcases applies.mem_net member with new | old
    · exact static.wired_packets effect packet new
    · exact static.net packet old
  · rcases applies.mem_history.mp member with new | old
    · cases effect with
      | countVote inNet =>
          cases List.mem_singleton.mp new
          exact (static.net _ inNet).2
      | _ => simp at new
    · exact static.counted i voter term old

end Static

end Cluster

end DistribKV
