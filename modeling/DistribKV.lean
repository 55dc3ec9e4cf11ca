import DistribKV.Consensus.Runs
import DistribKV.Consensus.Lockstep
import DistribKV.Consensus.Latest
import DistribKV.Consensus.Majority
import DistribKV.Consensus.Ledger
import DistribKV.Consensus.Commitment
import DistribKV.Consensus.Settlement
import DistribKV.Consensus.Loops
import DistribKV.Consensus.Linearizable
import DistribKV.Storage.Files
import DistribKV.Storage.Crash
import DistribKV.Raft.Types
import DistribKV.Raft.Election
import DistribKV.Raft.Replication
import DistribKV.Raft.Snapshot
import DistribKV.Raft.Lifecycle
import DistribKV.Raft.Log
import DistribKV.Raft.Follower
import DistribKV.Raft.Votes
import DistribKV.Raft.Persisters
import DistribKV.Raft.AtomicWrite
import DistribKV.Raft.CrashRecovery
import DistribKV.Raft.SnapshotFormat
import DistribKV.Raft.Backtracking
import DistribKV.Node.Model
import DistribKV.Node.Pipeline
import DistribKV.Node.ApplyOrder
import DistribKV.Node.Voting
import DistribKV.Node.LeaderRequest
import DistribKV.Node.Terms
import DistribKV.Node.CrashPoints
import DistribKV.Node.FailedCompaction
import DistribKV.Node.Roles
import DistribKV.Node.ElectionTimer
import DistribKV.Node.Wakeup
import DistribKV.Node.Bounds
import DistribKV.Node.CommitRule
import DistribKV.KV.Server
import DistribKV.KV.Replica
import DistribKV.KV.Shutdown
import DistribKV.KV.SnapshotFidelity
import DistribKV.KV.Handlers
import DistribKV.KV.Waiters
import DistribKV.KV.Handoff
import DistribKV.KV.Rpc
import DistribKV.KV.LeaderHint
import DistribKV.KV.SnapshotCut
import DistribKV.KV.DuplicateCache
import DistribKV.KV.DuplicateWindow
import DistribKV.KV.Clocks
import DistribKV.KV.Clerk
import DistribKV.KV.Retries
import DistribKV.KV.Answers
import DistribKV.KV.MemoryBounds
import DistribKV.Cluster.Model
import DistribKV.Cluster.Effect
import DistribKV.Cluster.Static
import DistribKV.Cluster.Peers
import DistribKV.Cluster.Votes
import DistribKV.Cluster.ElectionSafety
import DistribKV.Cluster.Quorums
import DistribKV.Cluster.Ledger
import DistribKV.Cluster.LogMatching
import DistribKV.Cluster.Projection
import DistribKV.Cluster.Origins
import DistribKV.Cluster.Bounds
import DistribKV.Cluster.MatchIndex
import DistribKV.Cluster.AwaitCommit
import DistribKV.Cluster.CompactedFollower
import DistribKV.Cluster.CompactedLeader
import DistribKV.Cluster.Flat
import DistribKV.Cluster.Register
import DistribKV.Cluster.Safety
import DistribKV.Cluster.Commit
import DistribKV.Cluster.LeaderCompleteness
import DistribKV.Cluster.StateMachineSafety
import DistribKV.Cluster.Durability
import DistribKV.Cluster.Permanence
import DistribKV.Cluster.WholeLogs
import DistribKV.Cluster.CompactedSafety
import DistribKV.Cluster.CompactedAgreement
import DistribKV.Cluster.Channels
import DistribKV.Cluster.Recovery
import DistribKV.System.Model
import DistribKV.System.Entries
import DistribKV.System.Replicas
import DistribKV.System.Linearizability
import DistribKV.System.Outcomes
import DistribKV.Config.Cluster
import DistribKV.Config.WireIds
