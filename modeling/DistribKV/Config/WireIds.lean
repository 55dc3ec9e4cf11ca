import DistribKV.Config.Cluster
import DistribKV.KV.Rpc
import DistribKV.Node.Voting

/-!
# Node ids on the wire

A configuration accepts ids of 64 bits.  Messages carry 32 bits: the sender cuts the id
off, and the receiver widens what it gets.  An id of `2^31` or more comes out as another
number, which can be the id of another node, or the `-1` that stands for no vote and no
leader.
-/

namespace DistribKV

open Consensus

theorem int32_eq_self_iff {id : Int} (nonneg : 0 ≤ id) : int32 id = id ↔ id < 2147483648 := by
  unfold int32
  omega

/-- Every message that carries the id of a node carries it unchanged: those that the node
sends, and those that redirect clients to it. -/
structure CarriesId (r : Raft) : Prop where
  requestVote : ∀ term, (r.requestVoteRequest term).candidateId = r.serverId
  appendEntries : ∀ nextIdx term commitIdx,
    (r.appendEntriesRequest nextIdx term commitIdx).leaderId = r.serverId
  installSnapshot : ∀ peerId term req, r.sendInstallSnapshot peerId term = some req →
    req.leaderId = r.serverId
  wrongLeader : ∀ other : Raft, other.getLeaderId = r.serverId →
    (KV.wrongLeaderGet other).leaderId = r.serverId ∧
      (KV.wrongLeaderPut other).leaderId = r.serverId ∧
      (KV.wrongLeaderAppend other).leaderId = r.serverId

/-- That is what all the messages cut the id off to. -/
theorem carriesId_iff (r : Raft) : CarriesId r ↔ int32 r.serverId = r.serverId := by
  constructor
  · exact fun carries => carries.requestVote 0
  · intro fits
    constructor
    · exact fun _ => fits
    · exact fun _ _ _ => fits
    · intro peerId term req sent
      rw [Raft.sendInstallSnapshot_request sent]
      exact fits
    · intro other names
      have redirects : int32 other.getLeaderId = r.serverId := by
        rw [names, fits]
      exact ⟨redirects, redirects, redirects⟩

/-! ## Votes -/

/-- A voter, with the terms and the configured ids of the candidates whose requests it
granted. -/
structure Ballot where
  voter : Node
  granted : List (Nat × Int)

/-- A candidate asks for the vote, or the voter does something else. -/
inductive BallotAction where
  | ask (candidate : Raft) (term : Nat) (disk : Disk)
  | other (a : NodeAction)

namespace Ballot

/-- A node that was just constructed, and started. -/
def opened (r : Raft) : Ballot where
  voter := { raft := r.start, sent := r.applyCh }
  granted := []

/-- The answer to a request grants the vote. -/
def grants (r : Raft) (req : RequestVoteRequest) (disk : Disk) : Bool :=
  match (r.requestVote req disk).2 with
  | .ok resp => resp.voteGranted
  | .error _ => false

def step (b : Ballot) : BallotAction → Option Ballot
  | .ask candidate term disk =>
      let req := candidate.requestVoteRequest term
      (b.voter.step (.requestVote req disk)).map fun voter =>
        { voter
          granted := if grants b.voter.raft req disk then (term, candidate.serverId) :: b.granted
            else b.granted }
  | .other a => (b.voter.step a).map fun voter => { b with voter }

/-- The voter gets no other requests to vote, does not exhaust the terms, and its restarts
forget no vote. -/
@[reducible] def Else (n : Node) : NodeAction → Prop
  | .requestVote _ _ => False
  | a => n.KeepsVotes a

instance (n : Node) : DecidablePred (Else n) := NodeAction.decidable _

/-- Requests come from candidates with the given ids. -/
def Among (ids : List Int) (b : Ballot) : BallotAction → Prop
  | .ask candidate _ _ => candidate.serverId ∈ ids
  | .other a => Else b.voter a

instance (ids : List Int) (b : Ballot) : DecidablePred (Among ids b)
  | .ask candidate _ _ => inferInstanceAs (Decidable (candidate.serverId ∈ ids))
  | .other a => inferInstanceAs (Decidable (Else b.voter a))

/-- The votes of the voter are one per term, and every granted request is among them under
the id that it carried. -/
structure Sound (ids : List Int) (b : Ballot) : Prop where
  valid : b.voter.raft.serverId ≠ -1
  oneVote : b.voter.OneVote
  recorded : ∀ term id, (term, id) ∈ b.granted → id ∈ ids ∧ (term, int32 id) ∈ b.voter.votes

end Ballot

namespace Node

variable {n n' : Node}

theorem votes_subset_of_step {a : NodeAction} (stepped : n.step a = some n') :
    n.votes ⊆ n'.votes := by
  cases effect_of_step stepped with
  | stand => exact List.subset_cons_self _ _
  | grant => exact List.subset_cons_self _ _
  | _ => exact List.Subset.refl _

/-- A granted request is a vote. -/
theorem mem_votes_of_grants {req : RequestVoteRequest} {disk : Disk}
    (stepped : n.step (.requestVote req disk) = some n')
    (grants : Ballot.grants n.raft req disk = true) : (req.term, req.candidateId) ∈ n'.votes := by
  simp only [step] at stepped
  unfold Ballot.grants at grants
  cases called : n.raft.requestVote req disk with
  | mk r reply =>
      rw [called] at stepped grants
      cases Raft.requestVote_path called with
      | stale => cases grants
      | refused => cases grants
      | unsaved => cases grants
      | granted =>
          cases stepped
          exact List.mem_cons_self

end Node

namespace Ballot.Sound

variable {ids : List Int} {b b' : Ballot} {a : BallotAction}

/-- A step of the voter that forgets no vote, without a new grant. -/
theorem moves {n : Node} {a : NodeAction} (sound : Sound ids b) (keeps : b.voter.KeepsVotes a)
    (acts : b.voter.step a = some n) : Sound ids { b with voter := n } := by
  have effect := Node.effect_of_step acts
  constructor
  · exact Node.serverId_of_effect effect ▸ sound.valid
  · exact sound.oneVote.of_effect sound.valid keeps effect
  · intro term id mem
    obtain ⟨known, given⟩ := sound.recorded term id mem
    exact ⟨known, Node.votes_subset_of_step acts given⟩

theorem step (sound : Sound ids b) (valid : ∀ id ∈ ids, int32 id ≠ -1) (among : Among ids b a)
    (stepped : b.step a = some b') : Sound ids b' := by
  cases a with
  | ask candidate term disk =>
      obtain ⟨voter, votes, rfl⟩ := Option.map_eq_some_iff.mp stepped
      have keeps : b.voter.KeepsVotes (.requestVote (candidate.requestVoteRequest term) disk) :=
        valid candidate.serverId among
      have moved := sound.moves keeps votes
      refine ⟨moved.valid, moved.oneVote, fun term' id mem => ?_⟩
      simp only at mem
      split at mem
      next grants =>
        rcases List.mem_cons.mp mem with same | mem
        · cases same
          exact ⟨among, Node.mem_votes_of_grants votes grants⟩
        · exact moved.recorded term' id mem
      next => exact moved.recorded term' id mem
  | other a =>
      obtain ⟨voter, acts, rfl⟩ := Option.map_eq_some_iff.mp stepped
      refine sound.moves ?_ acts
      cases a with
      | requestVote => exact among.elim
      | _ => exact among

end Ballot.Sound

namespace ClusterConfig

/-- No node of the cluster grants its vote in one term to two candidates. -/
def OneGrant (format : Int → String) (c : ClusterConfig) : Prop :=
  ∀ node ∈ c.nodes, ∀ persister r b, c.startFromConfig format node.id persister = .ok r →
    Run Ballot.step (Ballot.Among (c.nodes.map (·.id))) (.opened r) b →
    ∀ term candidate other, (term, candidate) ∈ b.granted → (term, other) ∈ b.granted →
      candidate = other

variable {c : ClusterConfig}

theorem Accepted.int32_id (accepted : c.Accepted) (small : ∀ node ∈ c.nodes, node.id < 2147483648)
    {node : NodeEntry} (mem : node ∈ c.nodes) : int32 node.id = node.id :=
  (int32_eq_self_iff (accepted.nonneg node mem)).mpr (small node mem)

theorem Accepted.oneGrant (accepted : c.Accepted) (format : Int → String)
    (small : ∀ node ∈ c.nodes, node.id < 2147483648) : c.OneGrant format := by
  have fits : ∀ id ∈ c.nodes.map (·.id), int32 id = id ∧ id ≠ -1 := by
    intro id known
    obtain ⟨node, mem, rfl⟩ := List.mem_map.mp known
    have nonneg := accepted.nonneg node mem
    exact ⟨accepted.int32_id small mem, by omega⟩
  intro node mem persister r b started run term candidate other granted granted'
  rw [accepted.startFromConfig_eq format mem] at started
  cases started
  have sound : b.Sound (c.nodes.map (·.id)) := by
    apply run.invariant
    · refine ⟨?_, .of_none fun _ _ => List.not_mem_nil,
        fun _ _ granted => absurd granted List.not_mem_nil⟩
      obtain ⟨_, _, _, _, _, _, _, constructed⟩ :=
        Raft.newRaft_eq (c.raftConfig node persister).config persister
      simp only [Ballot.opened, constructed]
      exact (fits node.id (List.mem_map_of_mem mem)).2
    · intro b b' a sound among stepped
      refine sound.step (fun id known => ?_) among stepped
      rw [(fits id known).1]
      exact (fits id known).2
  obtain ⟨known, given⟩ := sound.recorded _ _ granted
  obtain ⟨known', given'⟩ := sound.recorded _ _ granted'
  have same := sound.oneVote.unique given given'
  rwa [(fits _ known).1, (fits _ known').1] at same

/-- The ids of an accepted configuration survive the wire, so that none of them comes out
as the `-1` of no vote or as the id of another node and no node votes twice in a term,
exactly if all of them are below `2^31`. -/
theorem ids_survive_iff (format : Int → String) (accepted : c.validate format = none) :
    ((∀ node ∈ c.nodes, ∀ r : Raft, r.serverId = node.id → CarriesId r) ∧
        (∀ a ∈ c.nodes, int32 a.id ≠ -1 ∧ ∀ b ∈ c.nodes, a.id ≠ b.id → int32 a.id ≠ int32 b.id) ∧
        c.OneGrant format) ↔
      ∀ node ∈ c.nodes, node.id < 2147483648 := by
  rw [validate_eq_none_iff] at accepted
  constructor
  · rintro ⟨carries, -, -⟩ node mem
    have started : (Raft.fresh (c.raftConfig node {}).config {}).serverId = node.id := rfl
    have fits := (carriesId_iff _).mp (carries node mem _ started)
    rw [started] at fits
    exact (int32_eq_self_iff (accepted.nonneg node mem)).mp fits
  · intro small
    refine ⟨?_, ?_, accepted.oneGrant format small⟩
    · intro node mem r named
      rw [carriesId_iff, named]
      exact accepted.int32_id small mem
    · intro a mem
      rw [accepted.int32_id small mem]
      have nonneg := accepted.nonneg a mem
      refine ⟨by omega, fun b mem' distinct => ?_⟩
      rw [accepted.int32_id small mem']
      exact distinct

/-- Nodes with the given ids. -/
def withIds (ids : List Int) : ClusterConfig where
  cluster :=
    { heartbeatInterval := 50000000
      electionTimeoutMin := 150000000
      electionTimeoutMax := 300000000
      dataDir := "data" }
  nodes := ids.map fun id => ⟨id, "localhost:50051"⟩

theorem ids_survive_three :
    (withIds [0, 1, 2]).validate toString = none ∧ (withIds [0, 1, 2]).OneGrant toString := by
  have accepted : (withIds [0, 1, 2]).validate toString = none := by decide +kernel
  exact ⟨accepted, ((ids_survive_iff toString accepted).mpr (by decide +kernel)).2.2⟩

/-- Two candidates ask node `0` in term `1`: that with the id `2^32 - 1`, which arrives as
`-1`, and then node `1`. -/
def asksTwice : List BallotAction :=
  [.ask (Raft.fresh ⟨4294967295, [0, 1], 0⟩ {}) 1 {},
    .ask (Raft.fresh ⟨1, [0, 4294967295], 0⟩ {}) 1 {}]

/-- Both checks accept the three ids, and node `0` grants both requests. -/
theorem votes_twice_for_wide_id :
    (withIds [0, 1, 4294967295]).validate toString = none ∧
      (∀ node ∈ (withIds [0, 1, 4294967295]).nodes,
        ((withIds [0, 1, 4294967295]).raftConfig node {}).validate toString = none) ∧
      ¬ CarriesId (Raft.fresh ⟨4294967295, [0, 1], 0⟩ {}) ∧
      int32 4294967295 = -1 ∧
      ¬ (withIds [0, 1, 4294967295]).OneGrant toString := by
  have accepted : (withIds [0, 1, 4294967295]).validate toString = none := by decide +kernel
  have run : ∃ b, Run Ballot.step (Ballot.Among [0, 1, 4294967295])
      (.opened (Raft.newRaft ⟨0, [1, 4294967295], 0⟩ {})) b ∧
      ((1, 4294967295) ∈ b.granted ∧ (1, 1) ∈ b.granted) :=
    exists_run_of_perform asksTwice _ (by decide +kernel)
  refine ⟨accepted, by decide +kernel, ?_, by decide, fun one => ?_⟩
  · rw [carriesId_iff]
    decide
  · obtain ⟨b, run, granted, granted'⟩ := run
    have same := one ⟨0, "localhost:50051"⟩ (by decide) {} _ b
      (((validate_eq_none_iff _ _).mp accepted).startFromConfig_eq toString (by decide) {}) run
      1 _ _ granted granted'
    cases same

end ClusterConfig

end DistribKV
