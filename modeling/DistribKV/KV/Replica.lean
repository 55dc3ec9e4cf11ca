import DistribKV.KV.Server
import DistribKV.Node.Model

/-!
# A node with its key-value server

One process of the cluster as `server/run.go` builds it: a consensus node, a
key-value server that reads its apply channel, and one persister for both.  The
server's apply loop processes a message, and then may be between the two halves
of `takeSnapshot`, where it holds a snapshot that the node has not seen yet.

`Shutdown` stops the node and then kills the server.  The node cancels its apply loop
and waits for it; an entry in the hands of the loop is given back.  `Kill` then empties
the apply channel, so that nobody is left blocked on it.  The apply loop of the server
goes on meanwhile, and it still takes snapshots.
-/

namespace DistribKV

/-- The critical section of `Raft.Shutdown`.  Connections to peers are not modelled. -/
def Raft.beginShutdown (r : Raft) : Raft :=
  if r.shutdown then r
  else { r with shutdown := true, electionTimer := r.electionTimer.map fun _ => false }

theorem Raft.beginShutdown_eq (r : Raft) :
    ∃ shutdown electionTimer, r.beginShutdown = { r with shutdown, electionTimer } := by
  unfold beginShutdown
  split
  · exact ⟨_, _, rfl⟩
  · exact ⟨_, _, rfl⟩

/-- The apply loop finds its context cancelled and returns.  An entry it could not send
is given back. -/
def Node.exitApplyLoop (n : Node) : Node :=
  match n.applying with
  | none => n
  | some _ =>
      { n with raft := { n.raft with lastApplied := n.raft.lastApplied - 1 }, applying := none }

namespace KV

/-! ## A running process -/

/-- Node and server.  `pending` is the snapshot between the two halves of
`takeSnapshot`; `accepted` is a history variable with every snapshot that the node
took, oldest first. -/
structure Replica where
  node : Node
  kv : Server := {}
  pending : Option (Nat × Bytes) := none
  accepted : List (Nat × Bytes) := []
  deriving DecidableEq

/-- One atomic step of node and server. -/
inductive ReplicaAction where
  /-- The node acts on its own. -/
  | raft (a : NodeAction)
  /-- The server receives a message and processes it. -/
  | apply (now : Moment)
  /-- The server hands its pending snapshot to the node. -/
  | snapshot (disk : Disk)
  deriving DecidableEq, Repr

/-- Actions of a node that its key-value server or its process takes part in. -/
def shared : NodeAction → Bool
  | .snapshot _ _ _ => true
  | .consume => true
  | .restart => true
  | _ => false

namespace Replica

/-- The server after `Raft.Snapshot` has returned. -/
def settle (kv : Server) (index : Nat) : Option String → Server
  | none => { kv with lastSnapshotIndex := index }
  | some _ => kv

theorem settle_state (kv : Server) (index : Nat) (err : Option String) :
    (settle kv index err).state = kv.state ∧
      (settle kv index err).lastApplied = kv.lastApplied := by
  cases err with
  | none => exact ⟨rfl, rfl⟩
  | some err => exact ⟨rfl, rfl⟩

/-- The step function; `none` when the action is not enabled. -/
def step (json : Json) (r : Replica) : ReplicaAction → Option Replica
  | .raft a =>
      if shared a then none
      else
        match r.node.step a with
        | none => none
        | some node => some { r with node }
  | .apply now =>
      match r.pending, r.node.raft.applyCh with
      | none, msg :: queue =>
          let processed := r.kv.processApplyMsg json now msg
          some { r with
            node := { r.node with raft := { r.node.raft with applyCh := queue } }
            kv := processed.server
            pending :=
              if processed.triggers then
                processed.server.takeSnapshot json r.node.raft.snapshotThreshold now.time
              else none }
      | _, _ => none
  | .snapshot disk =>
      match r.pending with
      | none => none
      | some (index, data) =>
          let (raft, err) := r.node.raft.snapshotUpTo index data disk
          some { r with
            node := { r.node with raft }
            kv := settle r.kv index err
            pending := none
            accepted := r.accepted ++ if err.isNone then [(index, data)] else [] }

/-! What the three kinds of steps do. -/

variable {json : Json} {r r' : Replica}

theorem of_raft {a : NodeAction} (stepped : r.step json (.raft a) = some r') :
    shared a = false ∧ ∃ node, r.node.step a = some node ∧ r' = { r with node } := by
  simp only [step] at stepped
  split at stepped
  · cases stepped
  next own =>
    split at stepped
    · cases stepped
    next node acted =>
      cases stepped
      exact ⟨Bool.eq_false_of_not_eq_true own, node, acted, rfl⟩

theorem of_apply {now : Moment} (stepped : r.step json (.apply now) = some r') :
    ∃ msg queue, r.node.raft.applyCh = msg :: queue ∧
      r' = { r with
        node := { r.node with raft := { r.node.raft with applyCh := queue } }
        kv := (r.kv.processApplyMsg json now msg).server
        pending :=
          if (r.kv.processApplyMsg json now msg).triggers then
            (r.kv.processApplyMsg json now msg).server.takeSnapshot json
              r.node.raft.snapshotThreshold now.time
          else none } := by
  simp only [step] at stepped
  split at stepped
  next msg queue _ received =>
    cases stepped
    exact ⟨msg, queue, received, rfl⟩
  · cases stepped

theorem of_snapshot {disk : Disk} (stepped : r.step json (.snapshot disk) = some r') :
    ∃ index data raft err, r.pending = some (index, data) ∧
      r.node.raft.snapshotUpTo index data disk = (raft, err) ∧
      r' = { r with
        node := { r.node with raft }
        kv := settle r.kv index err
        pending := none
        accepted := r.accepted ++ if err.isNone then [(index, data)] else [] } := by
  simp only [step] at stepped
  split at stepped
  · cases stepped
  next index data held =>
    cases stepped
    exact ⟨index, data, _, _, held, rfl, rfl⟩

end Replica

/-! ## Shutdown and restart -/

/-- How far `Shutdown` has come. -/
inductive Stopping where
  | running
  /-- `Raft.Shutdown` waits for the apply loop of the node. -/
  | cancelled
  /-- `Raft.Shutdown` has returned. -/
  | stopped
  /-- `Kill` takes messages out of the apply channel. -/
  | draining
  deriving DecidableEq, Repr

/-- A process that may be shut down and started again.  History variables are `reached`,
the index up to which messages have left the channel, and `lost`, the indices that left
it without being applied. -/
structure Process where
  replica : Replica
  stopping : Stopping := .running
  reached : Nat := 0
  lost : List Nat := []
  deriving DecidableEq

inductive ProcessAction where
  | replica (a : ReplicaAction)
  | shutdown
  | exitApplyLoop
  | kill
  | drain
  /-- A new process is started on the same persister, after a shutdown or a crash.
  Nothing of the old one goes on. -/
  | restart
  deriving DecidableEq, Repr

namespace Process

/-- A process started on what a persister holds. -/
def init (cfg : Config) (persister : Persister) : Process where
  replica := { node := .init cfg persister }

/-- Steps of the apply loop of the node. -/
def loops : ReplicaAction → Bool
  | .raft .takeEntry | .raft .sendEntry => true
  | _ => false

/-- The indices that a message brings past the given one. -/
def covered (reached : Nat) (msg : ApplyMsg) : List Nat :=
  List.range' (reached + 1) (msg.index - reached)

/-- What the server has not applied after it has processed a message. -/
def lostAfter (lost : List Nat) : ApplyMsg → List Nat
  | .command _ _ => lost
  | .snapshot _ _ _ => []

@[simp] theorem lostAfter_nil (msg : ApplyMsg) : lostAfter [] msg = [] := by
  cases msg with
  | command command index => rfl
  | snapshot data index term => rfl

/-- The step function; `none` when the action is not enabled. -/
def step (json : Json) (s : Process) : ProcessAction → Option Process
  | .replica a =>
      if loops a ∧ (s.stopping = .stopped ∨ s.stopping = .draining) then none
      else
        match s.replica.step json a with
        | none => none
        | some replica =>
            match a, s.replica.node.raft.applyCh with
            | .apply _, msg :: _ =>
                some { s with replica, reached := msg.index, lost := lostAfter s.lost msg }
            | _, _ => some { s with replica }
  | .shutdown =>
      match s.stopping with
      | .running =>
          some { s with
            replica := { s.replica with
              node := { s.replica.node with raft := s.replica.node.raft.beginShutdown } }
            stopping := .cancelled }
      | _ => none
  | .exitApplyLoop =>
      match s.stopping with
      | .cancelled =>
          some { s with
            replica := { s.replica with node := s.replica.node.exitApplyLoop }
            stopping := .stopped }
      | _ => none
  | .kill =>
      match s.stopping with
      | .stopped => some { s with stopping := .draining }
      | _ => none
  | .drain =>
      match s.stopping, s.replica.node.raft.applyCh with
      | .draining, msg :: queue =>
          some { s with
            replica := { s.replica with
              node := { s.replica.node with
                raft := { s.replica.node.raft with applyCh := queue } } }
            reached := msg.index
            lost := s.lost ++ covered s.reached msg }
      | _, _ => none
  | .restart =>
      match s.replica.node.step .restart with
      | none => none
      | some node => some { replica := { node, accepted := s.replica.accepted } }

end Process

end KV

end DistribKV
