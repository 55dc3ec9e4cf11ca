import Mathlib.Data.List.Nodup
import DistribKV.Raft.Lifecycle

/-!
# Cluster configurations

`Config` of `config/config.go` with its checks, what `StartFromConfig` of `server/run.go`
makes of it for a node, and the checks of the configuration of `raft/raft.go`.  Durations
are in nanoseconds, and `format` is the text of a duration.
-/

namespace DistribKV

/-- Cluster-wide tunables. -/
structure ClusterSettings where
  heartbeatInterval : Int
  electionTimeoutMin : Int
  electionTimeoutMax : Int
  dataDir : String
  snapshotThreshold : Int := 0
  deriving DecidableEq, Repr

/-- An entry of the list of nodes. -/
structure NodeEntry where
  id : Int
  listenAddr : String
  deriving DecidableEq, Repr

structure ClusterConfig where
  cluster : ClusterSettings
  nodes : List NodeEntry
  deriving DecidableEq, Repr

/-- The configuration of one node.  A persister that is `none` is a nil interface. -/
structure RaftConfig where
  serverId : Int
  peers : List (Int × String)
  electionTimeoutMin : Int
  electionTimeoutMax : Int
  heartbeatInterval : Int
  snapshotThreshold : Int
  persister : Option Persister
  deriving DecidableEq

/-- Checks that are made one after the other. -/
theorem ite_some_eq_none {ε : Type} {fails : Prop} [Decidable fails] {err : ε}
    {rest : Option ε} : (if fails then some err else rest) = none ↔ ¬ fails ∧ rest = none := by
  by_cases here : fails
  · simp [here]
  · simp [here]

namespace RaftConfig

/-- `validate`: the error, or `none`. -/
def validate (format : Int → String) (c : RaftConfig) : Option String :=
  if c.serverId < 0 then
    some ("server_id must be non-negative (got " ++ toString c.serverId ++ ")")
  else if c.persister = none then some "persister is required"
  else if c.serverId ∈ c.peers.map (·.1) then
    some ("peers map must not include self (id " ++ toString c.serverId ++ ")")
  else if c.electionTimeoutMin ≤ 0 then
    some ("election_timeout_min must be positive (got " ++ format c.electionTimeoutMin ++ ")")
  else if c.electionTimeoutMax ≤ 0 then
    some ("election_timeout_max must be positive (got " ++ format c.electionTimeoutMax ++ ")")
  else if c.electionTimeoutMin ≥ c.electionTimeoutMax then
    some ("election_timeout_min must be less than election_timeout_max (got " ++
      format c.electionTimeoutMin ++ " >= " ++ format c.electionTimeoutMax ++ ")")
  else if c.heartbeatInterval ≤ 0 then
    some ("heartbeat_interval must be positive (got " ++ format c.heartbeatInterval ++ ")")
  else none

theorem validate_eq_none (format : Int → String) {c : RaftConfig} (nonneg : 0 ≤ c.serverId)
    (persister : c.persister ≠ none) (others : c.serverId ∉ c.peers.map (·.1))
    (electionMin : 0 < c.electionTimeoutMin)
    (electionMax : c.electionTimeoutMin < c.electionTimeoutMax)
    (heartbeat : 0 < c.heartbeatInterval) : c.validate format = none := by
  unfold validate
  simp only [ite_some_eq_none]
  exact ⟨by omega, persister, others, by omega, by omega, by omega, by omega, trivial⟩

/-- What the node keeps of it. -/
def config (c : RaftConfig) : Config where
  serverId := c.serverId
  peers := c.peers.map (·.1)
  snapshotThreshold := c.snapshotThreshold

/-- `NewRaft`, which checks the configuration first. -/
def newRaft (format : Int → String) (c : RaftConfig) : Except String Raft :=
  match c.validate format with
  | some err => .error ("raft config: " ++ err)
  | none => .ok (Raft.newRaft c.config (c.persister.getD {}))

end RaftConfig

namespace ClusterConfig

/-- The loop of `validate` over the nodes, with the ids it has seen. -/
def validateNodes : List Int → List NodeEntry → Option String
  | _, [] => none
  | seen, n :: rest =>
      if n.id < 0 then some ("node id " ++ toString n.id ++ " must be non-negative")
      else if n.listenAddr = "" then
        some ("node " ++ toString n.id ++ ": listen_addr is required")
      else if n.id ∈ seen then some ("duplicate node id " ++ toString n.id)
      else validateNodes (n.id :: seen) rest

/-- `validate`: the error, or `none`. -/
def validate (format : Int → String) (c : ClusterConfig) : Option String :=
  if c.nodes.length = 0 then some "no nodes defined"
  else if c.cluster.heartbeatInterval ≤ 0 then some "heartbeat_interval must be positive"
  else if c.cluster.electionTimeoutMin ≤ 0 ∨ c.cluster.electionTimeoutMax ≤ 0 then
    some "election timeouts must be positive"
  else if c.cluster.electionTimeoutMin ≥ c.cluster.electionTimeoutMax then
    some ("election_timeout_min must be less than election_timeout_max (got " ++
      format c.cluster.electionTimeoutMin ++ " >= " ++ format c.cluster.electionTimeoutMax ++ ")")
  else if c.cluster.dataDir = "" then some "cluster.data_dir is required"
  else validateNodes [] c.nodes

def nodeById (c : ClusterConfig) (id : Int) : Except String NodeEntry :=
  match c.nodes.find? (·.id = id) with
  | some node => .ok node
  | none => .error ("node id " ++ toString id ++ " not found in config")

def peersOf (c : ClusterConfig) (id : Int) : List NodeEntry := c.nodes.filter (·.id ≠ id)

/-- The configuration that `StartFromConfig` hands to `NewRaft`. -/
def raftConfig (c : ClusterConfig) (node : NodeEntry) (persister : Persister) : RaftConfig where
  serverId := node.id
  peers := (c.peersOf node.id).map fun p => (p.id, p.listenAddr)
  electionTimeoutMin := c.cluster.electionTimeoutMin
  electionTimeoutMax := c.cluster.electionTimeoutMax
  heartbeatInterval := c.cluster.heartbeatInterval
  snapshotThreshold := c.cluster.snapshotThreshold
  persister := some persister

/-- The raft node that `StartFromConfig` constructs. -/
def startFromConfig (format : Int → String) (c : ClusterConfig) (nodeId : Int)
    (persister : Persister) : Except String Raft :=
  match c.nodeById nodeId with
  | .error err => .error err
  | .ok node =>
      match (c.raftConfig node persister).newRaft format with
      | .error err => .error ("construct raft: " ++ err)
      | .ok r => .ok r

/-! ## What is accepted -/

theorem validateNodes_eq_none_iff (seen : List Int) (nodes : List NodeEntry) :
    validateNodes seen nodes = none ↔
      (∀ n ∈ nodes, 0 ≤ n.id ∧ n.listenAddr ≠ "" ∧ n.id ∉ seen) ∧ (nodes.map (·.id)).Nodup := by
  induction nodes generalizing seen with
  | nil => simp [validateNodes]
  | cons n rest ih =>
      simp only [validateNodes, ite_some_eq_none, ih, List.map_cons, List.nodup_cons,
        List.forall_mem_cons, Int.not_lt]
      constructor
      · rintro ⟨nonneg, named, new, valid, distinct⟩
        refine ⟨⟨⟨nonneg, named, new⟩, fun m mem => ?_⟩, ?_, distinct⟩
        · obtain ⟨nonneg, named, new⟩ := valid m mem
          exact ⟨nonneg, named, fun old => new (List.mem_cons_of_mem _ old)⟩
        · intro again
          obtain ⟨m, mem, same⟩ := List.mem_map.mp again
          exact (valid m mem).2.2 (same ▸ List.mem_cons_self)
      · rintro ⟨⟨⟨nonneg, named, new⟩, valid⟩, fresh, distinct⟩
        refine ⟨nonneg, named, new, fun m mem => ?_, distinct⟩
        obtain ⟨nonneg, named, new⟩ := valid m mem
        refine ⟨nonneg, named, fun old => ?_⟩
        rcases List.mem_cons.mp old with same | old
        · exact fresh (same ▸ List.mem_map_of_mem mem)
        · exact new old

/-- What `validate` accepts. -/
structure Accepted (c : ClusterConfig) : Prop where
  nonempty : c.nodes ≠ []
  heartbeat : 0 < c.cluster.heartbeatInterval
  electionMin : 0 < c.cluster.electionTimeoutMin
  electionMax : c.cluster.electionTimeoutMin < c.cluster.electionTimeoutMax
  dataDir : c.cluster.dataDir ≠ ""
  nonneg : ∀ n ∈ c.nodes, 0 ≤ n.id
  listens : ∀ n ∈ c.nodes, n.listenAddr ≠ ""
  distinct : (c.nodes.map (·.id)).Nodup

theorem validate_eq_none_iff (format : Int → String) (c : ClusterConfig) :
    c.validate format = none ↔ c.Accepted := by
  unfold validate
  simp only [ite_some_eq_none, validateNodes_eq_none_iff, List.length_eq_zero_iff]
  constructor
  · rintro ⟨nonempty, heartbeat, timeouts, ordered, dataDir, valid, distinct⟩
    exact
      { nonempty
        heartbeat := Int.not_le.mp heartbeat
        electionMin := by omega
        electionMax := Int.not_le.mp ordered
        dataDir
        nonneg := fun n mem => (valid n mem).1
        listens := fun n mem => (valid n mem).2.1
        distinct }
  · intro accepted
    have heartbeat := accepted.heartbeat
    have positive := accepted.electionMin
    have ordered := accepted.electionMax
    exact ⟨accepted.nonempty, by omega, by omega, by omega, accepted.dataDir,
      fun n mem => ⟨accepted.nonneg n mem, accepted.listens n mem, List.not_mem_nil⟩,
      accepted.distinct⟩

namespace Accepted

variable {c : ClusterConfig} {node : NodeEntry}

/-- The second check accepts what the first one does. -/
theorem raftConfig_validate (accepted : c.Accepted) (format : Int → String)
    (mem : node ∈ c.nodes) (persister : Persister) :
    (c.raftConfig node persister).validate format = none := by
  apply RaftConfig.validate_eq_none
  · exact accepted.nonneg node mem
  · exact Option.some_ne_none persister
  · simp [raftConfig, peersOf]
  · exact accepted.electionMin
  · exact accepted.electionMax
  · exact accepted.heartbeat

theorem nodeById_eq (accepted : c.Accepted) (mem : node ∈ c.nodes) :
    c.nodeById node.id = .ok node := by
  have found : (c.nodes.find? (·.id = node.id)).isSome := by
    rw [List.find?_isSome]
    exact ⟨node, mem, decide_eq_true rfl⟩
  obtain ⟨other, found⟩ := Option.isSome_iff_exists.mp found
  have same := List.find?_some found
  rw [decide_eq_true_eq] at same
  have here : other = node :=
    List.inj_on_of_nodup_map accepted.distinct (List.mem_of_find?_eq_some found) mem same
  rw [nodeById, found, here]

/-- Every node of an accepted configuration starts. -/
theorem startFromConfig_eq (accepted : c.Accepted) (format : Int → String)
    (mem : node ∈ c.nodes) (persister : Persister) :
    c.startFromConfig format node.id persister =
      .ok (Raft.newRaft (c.raftConfig node persister).config persister) := by
  simp only [startFromConfig, accepted.nodeById_eq mem, RaftConfig.newRaft,
    accepted.raftConfig_validate format mem persister]
  rfl

end Accepted

end ClusterConfig

end DistribKV
