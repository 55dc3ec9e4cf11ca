import DistribKV.Cluster.LogMatching
import DistribKV.Cluster.Peers
import DistribKV.Raft.Follower
import Mathlib.Data.List.MinMax

/-!
# Leaders with a compacted log

`sendAppendEntries` collects entries with a loop over absolute indices that stops
at `len(r.log)`, the number of entries the leader has retained.  Once a prefix of the
log is folded into a snapshot, entries whose index is above that number are not sent,
although the leader has them.

What follows for the cluster is a bound on the commit index.  Past the entries that
were already on their way, a leader commits an index only after its retained log has
become that long: having folded `b` entries it has to collect `b` more before the next
command is answered.
-/

namespace DistribKV

open Consensus

namespace Raft

variable {r r' : Raft} {bound : Nat}

/-! ## What one request reaches -/

theorem length_collectEntries_le (log : List LogEntry) (base : Nat) (indices : List Nat) :
    (collectEntries log base indices).length ≤ indices.length := by
  induction indices with
  | nil => exact Nat.le_refl _
  | cons i rest ih =>
      unfold collectEntries
      split
      · exact Nat.zero_le _
      · exact Nat.succ_le_succ ih

/-- A request ends at the entry before its `nextIndex` or within the first
`len(r.log)` indices. -/
theorem lastNewIndex_appendEntriesRequest_le (r : Raft) {nextIdx : Nat} (positive : 0 < nextIdx)
    (term commitIdx : Nat) :
    (r.appendEntriesRequest nextIdx term commitIdx).lastNewIndex ≤
      max (nextIdx - 1) r.log.length := by
  have collected : ∀ start, (collectEntries r.log r.logBase
      (List.range' start (r.log.length + 1 - start))).length ≤ r.log.length + 1 - start := by
    intro start
    exact (length_collectEntries_le _ _ _).trans_eq List.length_range'
  have fromNext := collected nextIdx
  have fromFirst := collected 1
  simp only [AppendEntriesRequest.lastNewIndex, appendEntriesRequest]
  split
  · split <;> dsimp only <;> omega
  · dsimp only
    omega

/-! ## The leader -/

/-- How far a leader with a retained log of this length can get: to where it had got
before, or to the length of the log. -/
def reach (r : Raft) (bound : Nat) : Nat := max bound r.log.length

/-- The leader has committed and recorded nothing beyond its reach. -/
structure Confined (bound : Nat) (r : Raft) : Prop where
  hasPeers : r.peers ≠ []
  snapshotIndex : r.snapshotIndex ≤ bound
  commitIndex : r.commitIndex ≤ r.reach bound
  matchIndex : ∀ peer ∈ r.peers, peer.matchIndex ≤ r.reach bound
  nextIndex : ∀ peer ∈ r.peers, peer.nextIndex ≤ r.reach bound + 1

namespace Confined

theorem of_yields (confined : r.Confined bound) (yields : r.Yields r') : r'.Confined bound := by
  obtain ⟨hasPeers, snapshotIndex, commitIndex, matchIndex, nextIndex⟩ := confined
  unfold reach at *
  constructor <;> simp only [reach, yields.peers, yields.log, yields.snapshotIndex,
    yields.commitIndex] <;> assumption

/-- An entry at the end of the log moves the reach on. -/
theorem append (confined : r.Confined bound) (entry : LogEntry) :
    { r with log := r.log ++ [entry] }.saved.Confined bound := by
  have grows : r.reach bound ≤ { r with log := r.log ++ [entry] }.saved.reach bound := by
    simp only [reach, saved, List.length_append, List.length_singleton]
    omega
  exact ⟨confined.hasPeers, confined.snapshotIndex, confined.commitIndex.trans grows,
    fun peer known => (confined.matchIndex peer known).trans grows,
    fun peer known => (confined.nextIndex peer known).trans (Nat.succ_le_succ grows)⟩

/-- What is recorded for a peer is within reach when the record made is. -/
theorem updatePeer (confined : r.Confined bound) (peerId : Int) {record : Peer → Peer}
    (within : ∀ peer ∈ r.peers, (record peer).matchIndex ≤ r.reach bound ∧
      (record peer).nextIndex ≤ r.reach bound + 1) :
    (r.updatePeer peerId record).Confined bound where
  hasPeers := by
    simp only [Raft.updatePeer, ne_eq, List.map_eq_nil_iff]
    exact confined.hasPeers
  snapshotIndex := confined.snapshotIndex
  commitIndex := confined.commitIndex
  matchIndex := by
    intro peer known
    obtain ⟨old, member, rfl⟩ := List.mem_map.mp known
    split
    · exact (within old member).1
    · exact confined.matchIndex old member
  nextIndex := by
    intro peer known
    obtain ⟨old, member, rfl⟩ := List.mem_map.mp known
    split
    · exact (within old member).2
    · exact confined.nextIndex old member

/-- An answer that confirms the first `n` entries. -/
theorem record (confined : r.Confined bound) (peerId : Int) {n : Nat}
    (within : n ≤ r.reach bound) :
    (r.updatePeer peerId fun p =>
      let matchIndex := max p.matchIndex n
      { p with matchIndex, nextIndex := matchIndex + 1 }).Confined bound := by
  refine confined.updatePeer peerId fun peer known => ?_
  have limit := max_le (confined.matchIndex peer known) within
  exact ⟨limit, Nat.succ_le_succ limit⟩

/-- A majority is more than the leader itself, so what it commits some peer has. -/
theorem updateCommitIndex (confined : r.Confined bound) :
    r.updateCommitIndex.Confined bound := by
  rcases r.updateCommitIndex_cases with same | ⟨n, _, -, -, -, replicas, -, moved⟩
  · rwa [same]
  · rw [moved]
    refine ⟨confined.hasPeers, confined.snapshotIndex, ?_, confined.matchIndex,
      confined.nextIndex⟩
    have counted : 0 < r.peers.countP fun p => decide (p.matchIndex ≥ n) := by
      have some := List.length_pos_iff.mpr confined.hasPeers
      simp only [Raft.replicas] at replicas
      omega
    obtain ⟨peer, known, holds⟩ := List.countP_pos_iff.mp counted
    exact (of_decide_eq_true holds).trans (confined.matchIndex peer known)

/-- A request of the leader stays within its reach. -/
theorem request (confined : r.Confined bound) {peerId : Int} {term commitIdx : Nat}
    {req : AppendEntriesRequest}
    (sent : r.sendAppendEntries peerId term commitIdx = .request req) :
    req.lastNewIndex ≤ r.reach bound := by
  unfold sendAppendEntries at sent
  split at sent
  · cases sent
  next peer found =>
    have next := confined.nextIndex peer (List.mem_of_find?_eq_some found)
    have start : 0 < (if peer.nextIndex < 1 then 1 else peer.nextIndex) ∧
        (if peer.nextIndex < 1 then 1 else peer.nextIndex) ≤ r.reach bound + 1 := by
      split <;> omega
    generalize (if peer.nextIndex < 1 then 1 else peer.nextIndex) = nextIdx at *
    split at sent
    · cases sent
    · dsimp only at sent
      split at sent
      · cases sent
      · cases sent
        exact (r.lastNewIndex_appendEntriesRequest_le start.1 term commitIdx).trans
          (max_le (Nat.sub_le_of_le_add start.2) (le_max_right _ _))

end Confined

end Raft

/-- The index up to which a packet confirms, or will confirm when answered, the log of
node `l` to `l`. -/
def Packet.carries (l : Int) : Packet → Nat
  | .appendEntries src _ req => if src = l then req.lastNewIndex else 0
  | .appendEntriesReply src _ req _ => if src = l then req.lastNewIndex else 0
  | .installSnapshot src _ req _ => if src = l then req.lastIncludedIndex else 0
  | .installSnapshotReply src _ req _ => if src = l then req.lastIncludedIndex else 0
  | _ => 0

namespace Cluster

variable {m : Membership} {s s' t : Cluster} {a : Action} {o : Outcome}
variable {l : Int} {term bound : Nat}

/-- The highest index that leader `l` has committed, has recorded for a peer, or has
on its way. -/
def horizon (s : Cluster) (l : Int) : Nat :=
  ((s.node l).commitIndex :: (s.node l).snapshotIndex ::
    ((s.node l).peers.map (·.matchIndex) ++ (s.node l).peers.map (·.nextIndex - 1) ++
      s.net.map (Packet.carries l))).foldr max 0

/-- Node `l` leads `term`.  It does not compact its log and does not crash in this
step, and it does not hear of another leader of the term. -/
@[reducible] def Reigns (l : Int) (term : Nat) (s : Cluster) (a : Action) : Prop :=
  s.Leads l term ∧
    match a with
    | .snapshot i _ _ _ => i ≠ l
    | .restart i => i ≠ l
    | .receive (.appendEntries _ dst req) _ => dst = l → req.term ≠ term
    | .receive (.installSnapshot _ dst req _) _ => dst = l → req.term ≠ term
    | _ => True

instance (l : Int) (term : Nat) (s : Cluster) : DecidablePred (Reigns l term s) :=
  Action.decidable _

/-- The leader and everything on its way to it or from it. -/
structure Confined (s : Cluster) (l : Int) (bound : Nat) : Prop where
  leader : (s.node l).Confined bound
  carried : ∀ packet ∈ s.net, packet.carries l ≤ (s.node l).reach bound

theorem confined_horizon (hasPeers : (s.node l).peers ≠ []) : s.Confined l (s.horizon l) := by
  have within : ∀ {n}, n ∈ ((s.node l).commitIndex :: (s.node l).snapshotIndex ::
      ((s.node l).peers.map (·.matchIndex) ++ (s.node l).peers.map (·.nextIndex - 1) ++
        s.net.map (Packet.carries l))) → n ≤ s.horizon l :=
    fun member => List.le_max_of_le' 0 member (Nat.le_refl _)
  have reached : s.horizon l ≤ (s.node l).reach (s.horizon l) := le_max_left _ _
  refine ⟨⟨hasPeers, within (by simp), (within (by simp)).trans reached,
    fun peer known => (within ?_).trans reached, fun peer known => ?_⟩,
    fun packet inNet => (within ?_).trans reached⟩
  · simp only [List.mem_cons, List.mem_append, List.mem_map]
    exact .inr (.inr (.inl (.inl ⟨peer, known, rfl⟩)))
  · have next : peer.nextIndex - 1 ≤ s.horizon l := by
      apply within
      simp only [List.mem_cons, List.mem_append, List.mem_map]
      exact .inr (.inr (.inl (.inr ⟨peer, known, rfl⟩)))
    omega
  · simp only [List.mem_cons, List.mem_append, List.mem_map]
    exact .inr (.inr (.inr ⟨packet, inNet, rfl⟩))

/-! ## One step -/

/-- The retained log of a reigning leader does not get shorter, and what it records
stays within reach. -/
theorem Confined.leader_step (confined : s.Confined l bound) (reigns : Reigns l term s a)
    (effect : Effect m s a o) (acts : o.node = l) (current : o.raft.currentTerm = term) :
    o.raft.Confined bound ∧ (s.node l).log.length ≤ o.raft.log.length := by
  obtain ⟨⟨leads, -⟩, allowed⟩ := reigns
  have leader := confined.leader
  have yielded : ∀ {r}, (s.node l).Yields r →
      r.Confined bound ∧ (s.node l).log.length ≤ r.log.length := fun yields =>
    ⟨leader.of_yields yields, (congrArg List.length yields.log).ge⟩
  have recorded : ∀ {peerId n r}, n ≤ (s.node l).reach bound →
      r = ((s.node l).updatePeer peerId fun p =>
        let matchIndex := max p.matchIndex n
        { p with matchIndex, nextIndex := matchIndex + 1 }).updateCommitIndex →
      r.Confined bound ∧ (s.node l).log.length ≤ r.log.length := by
    rintro peerId n r within rfl
    refine ⟨(leader.record peerId within).updateCommitIndex, ?_⟩
    rw [Raft.updateCommitIndex_log]
    exact Nat.le_refl _
  cases effect <;> dsimp only at acts current ⊢ <;> subst acts
  case yield yields => exact yielded yields
  case apply => exact ⟨⟨leader.1, leader.2, leader.3, leader.4, leader.5⟩, Nat.le_refl _⟩
  case duplicate => exact ⟨leader, Nat.le_refl _⟩
  case standUnsaved notLeader => exact absurd leads notLeader
  case stand notLeader => exact absurd leads notLeader
  case campaign => exact ⟨⟨leader.1, leader.2, leader.3, leader.4, leader.5⟩, Nat.le_refl _⟩
  case sendRequestVote => exact ⟨leader, Nat.le_refl _⟩
  case refuseVote yields _ => exact yielded yields
  case grantVote grants =>
      obtain ⟨kept, length⟩ := yielded (.adoptTerm _ _)
      rw [grants.result]
      exact ⟨⟨kept.1, kept.2, kept.3, kept.4, kept.5⟩, length⟩
  case countVote candidate _ => cases leads.symm.trans candidate
  case promote candidate => cases leads.symm.trans candidate
  case heartbeat => exact ⟨leader, Nat.le_refl _⟩
  case sendAppendEntries => exact ⟨leader, Nat.le_refl _⟩
  case startInstall => exact ⟨leader, Nat.le_refl _⟩
  case sendInstallSnapshot => exact ⟨leader, Nat.le_refl _⟩
  case replicate stored =>
      rw [stored]
      refine ⟨(leader.append _).updateCommitIndex, ?_⟩
      rw [Raft.updateCommitIndex_log]
      simp [Raft.saved]
  case refuseAppend yields => exact yielded yields
  case appendUnsaved sameTerm _ => exact absurd (sameTerm.symm.trans current) (allowed rfl)
  case append sameTerm _ stored _ =>
      rw [stored] at current
      exact absurd (sameTerm.symm.trans current) (allowed rfl)
  case recordMatch inNet _ _ _ updated =>
      have within := confined.carried _ inNet
      simp only [Packet.carries, if_true] at within
      exact recorded within updated
  case retry =>
      refine ⟨leader.updatePeer _ fun peer known => ⟨leader.matchIndex peer known, ?_⟩,
        Nat.le_refl _⟩
      have next := leader.nextIndex peer known
      dsimp only
      split <;> omega
  case answerInstall yields => exact yielded yields
  case install installs installed _ =>
      rw [installed] at current
      exact absurd (installs.term.symm.trans current) (allowed rfl)
  case recordInstall inNet _ updated =>
      have within := confined.carried _ inNet
      simp only [Packet.carries, if_true] at within
      exact recorded within updated
  case compact => exact absurd rfl allowed
  case restart => exact absurd rfl allowed

/-- The packets of the step carry no more than the leader reaches. -/
theorem Confined.carried_step (confined : s.Confined l bound) (effect : Effect m s a o) :
    ∀ packet ∈ o.packets, packet.carries l ≤ (s.node l).reach bound := by
  -- an answer carries what its request does
  have answered : ∀ {request packet : Packet}, request ∈ s.net →
      packet.carries l = request.carries l → packet.carries l ≤ (s.node l).reach bound :=
    fun inNet same => same ▸ confined.carried _ inNet
  intro packet member
  cases effect
  case duplicate inNet =>
      cases List.mem_singleton.mp member
      exact confined.carried _ inNet
  case sendRequestVote | refuseVote | grantVote =>
      cases List.mem_singleton.mp member
      exact Nat.zero_le _
  case sendAppendEntries sent =>
      cases List.mem_singleton.mp member
      dsimp only [Packet.carries]
      split
      next same =>
        subst same
        exact confined.leader.request sent
      · exact Nat.zero_le _
  case sendInstallSnapshot sent =>
      cases List.mem_singleton.mp member
      dsimp only [Packet.carries]
      split
      next same =>
        subst same
        rw [Raft.sendInstallSnapshot_request sent]
        exact confined.leader.snapshotIndex.trans (le_max_left _ _)
      · exact Nat.zero_le _
  case refuseAppend inNet _ | append inNet _ _ _ _ _ | answerInstall inNet _ =>
      cases List.mem_singleton.mp member
      exact answered inNet rfl
  case install inNet _ _ replies =>
      obtain ⟨resp, rfl⟩ := replies packet member
      exact answered inNet rfl
  all_goals cases member

theorem Confined.step (confined : s.Confined l bound) (reigns : Reigns l term s a)
    (stepped : s.step m a = some s') (leads : s'.Leads l term) : s'.Confined l bound := by
  obtain ⟨o, effect, applies⟩ := effect_of_step stepped
  have kept : (s'.node l).Confined bound ∧ (s.node l).log.length ≤ (s'.node l).log.length := by
    by_cases acts : o.node = l
    · have node := applies.node_self
      rw [acts] at node
      have current := leads.2
      rw [node] at current ⊢
      exact confined.leader_step reigns effect acts current
    · rw [applies.node_of_ne (Ne.symm acts)]
      exact ⟨confined.leader, Nat.le_refl _⟩
  refine ⟨kept.1, fun packet inNet => le_trans ?_ (max_le_max_left bound kept.2)⟩
  rcases applies.mem_net inNet with new | old
  · exact confined.carried_step effect packet new
  · exact confined.carried packet old

/-- While it leads without compacting again, a leader commits beyond its horizon only
what the retained part of its log alone is long enough for. -/
theorem compacted_leader_stalls (hasPeers : (s.node l).peers ≠ [])
    (run : Run (step m) (Reigns l term) s t) (leads : t.Leads l term) :
    (t.node l).commitIndex ≤ max (s.horizon l) (t.node l).log.length := by
  have confined : t.Leads l term → t.Confined l (s.horizon l) := by
    clear leads
    induction run with
    | refl => exact fun _ => confined_horizon hasPeers
    | tail _ reigns stepped ih => exact fun leads => (ih reigns.1).step reigns stepped leads
  exact (confined leads).leader.commitIndex

/-- Node `0` commits its first command with node `1` and folds it into a snapshot. -/
def folding : List Action :=
  replication ++
    [.receive (.appendEntriesReply 0 1 ⟨1, 0, 0, 0, [⟨1, 1, [7]⟩], 0⟩ ⟨1, true⟩) {},
      .takeEntry 0, .sendEntry 0, .consume 0, .snapshot 0 1 [] {}]

/-- The second command is stored and node `1` asked, but the request is empty. -/
def emptyRequest : List Action :=
  [.replicate 0 [8] {}, .sendAppendEntries 0 1 1 1,
    .receive (.appendEntries 0 1 ⟨1, 0, 0, 0, [], 1⟩) {},
    .receive (.appendEntriesReply 0 1 ⟨1, 0, 0, 0, [], 1⟩ ⟨1, true⟩) {}]

theorem compacted_leader_stalls_folding :
    ∃ s t, Run (step threeNodes) (fun _ _ => True) (init threeNodes 1) s ∧
      Run (step threeNodes) (Reigns 0 1) s t ∧ (t.node 0).logBase = 1 ∧
      (t.node 0).log = [⟨2, 1, [8]⟩] ∧ (t.node 0).commitIndex ≤ 1 := by
  have reached : ∃ s, Run (step threeNodes) (fun _ _ => True) (init threeNodes 1) s ∧
      (s.node 0).peers ≠ [] ∧ s.horizon 0 = 1 ∧
      (perform (step threeNodes) (Reigns 0 1) s emptyRequest).any (fun t => decide
        (t.Leads 0 1 ∧ (t.node 0).logBase = 1 ∧ (t.node 0).log = [⟨2, 1, [8]⟩])) = true :=
    exists_run_of_perform folding _ (by decide +kernel)
  obtain ⟨s, run, hasPeers, horizon, later⟩ := reached
  obtain ⟨t, reigns, leads, base, log⟩ := exists_run_of_perform emptyRequest _ later
  have bound := compacted_leader_stalls hasPeers reigns leads
  rw [horizon, log] at bound
  exact ⟨s, t, run, reigns, base, log, bound⟩

end Cluster

end DistribKV
