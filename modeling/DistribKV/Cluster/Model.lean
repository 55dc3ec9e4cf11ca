import DistribKV.Raft.Lifecycle
import Mathlib.Logic.Function.Basic

/-!
# The cluster

A cluster is the record of every node, the goroutines that are between two
critical sections, and the messages in flight.  One action is one critical
section of one node, or one event of the network.  The network may reorder and
delay messages arbitrarily; losing and duplicating them are actions of their own.

The `history` and `folded` components are history variables: they record what
has happened and are read by no modelled function.
-/

namespace DistribKV

/-- The node ids of a cluster definition: distinct and non-negative. -/
structure Membership where
  ids : List Int
  nodup : ids.Nodup
  nonneg : ∀ id ∈ ids, 0 ≤ id

/-- Every id survives the `int32` that carries it on the wire. -/
def Membership.Fits (m : Membership) : Prop := ∀ id ∈ m.ids, id < 2147483648

instance (m : Membership) : Decidable m.Fits :=
  inferInstanceAs (Decidable (∀ id ∈ m.ids, id < 2147483648))

/-- A goroutine that has released `r.mu` and will take it again. -/
inductive Task where
  /-- The rest of `becomeCandidate`, after the state has been stored. -/
  | campaign (node : Int) (term : Nat)
  | sendRequestVote (node peer : Int) (term : Nat)
  /-- A call of `becomeLeader` made by a campaign of the given term. -/
  | becomeLeader (node : Int) (term : Nat)
  | sendAppendEntries (node peer : Int) (term commitIdx : Nat)
  | sendInstallSnapshot (node peer : Int) (term : Nat)
  /-- The polling loop of `ReplicateCommand` for the entry it appended. -/
  | awaitCommit (node : Int) (cmd : Bytes) (term index : Nat)
  deriving DecidableEq, Repr

/-- The node a goroutine belongs to. -/
def Task.node : Task → Int
  | .campaign node _ => node
  | .sendRequestVote node _ _ => node
  | .becomeLeader node _ => node
  | .sendAppendEntries node _ _ _ => node
  | .sendInstallSnapshot node _ _ => node
  | .awaitCommit node _ _ _ => node

/-- A message in flight.  `src` is the node whose goroutine made the call and
`dst` the node that serves it, for requests and replies alike; a reply is kept
together with the request it answers, which that goroutine still holds. -/
inductive Packet where
  | requestVote (src dst : Int) (req : RequestVoteRequest)
  | requestVoteReply (src dst : Int) (term : Nat) (resp : RequestVoteResponse)
  | appendEntries (src dst : Int) (req : AppendEntriesRequest)
  | appendEntriesReply (src dst : Int) (req : AppendEntriesRequest)
      (resp : AppendEntriesResponse)
  | installSnapshot (src dst : Int) (req : InstallSnapshotRequest)
      (covered : List LogEntry)
  | installSnapshotReply (src dst : Int) (req : InstallSnapshotRequest)
      (resp : InstallSnapshotResponse)
  deriving DecidableEq, Repr

/-- Whether a packet is a reply to a call made by the given node. -/
def Packet.isReplyTo (id : Int) : Packet → Bool
  | .requestVoteReply src _ _ _ => decide (src = id)
  | .appendEntriesReply src _ _ _ => decide (src = id)
  | .installSnapshotReply src _ _ _ => decide (src = id)
  | _ => false

/-- What the history of a run records. -/
inductive Event where
  /-- `node` entered the candidate role in `term`, voting for itself. -/
  | candidacy (node : Int) (term : Nat)
  /-- `voter` answered `req` with `VoteGranted` in `term`. -/
  | granted (voter : Int) (term : Nat) (req : RequestVoteRequest)
  /-- `node` added the vote of `voter` to its count for `term`. -/
  | counted (node voter : Int) (term : Nat)
  /-- `node` entered the leader role in `term`, holding the given whole log. -/
  | promoted (node : Int) (term : Nat) (log : List LogEntry)
  /-- The leader `node` stored a new entry in its log. -/
  | appended (node : Int) (entry : LogEntry)
  /-- `node` confirmed that it holds the leader's log of `term` up to an index. -/
  | acknowledged (node : Int) (term upTo : Nat)
  /-- `updateCommitIndex` on the leader of `term`, holding the given whole log,
  advanced its commit index. -/
  | committed (node : Int) (term commitIndex : Nat) (log : List LogEntry)
  deriving DecidableEq, Repr

/-- A cluster.  `folded i` holds the entries that the snapshot of node `i`
stands for, and `applying i` the message its apply loop has taken but not sent. -/
structure Cluster where
  node : Int → Raft
  applying : Int → Option ApplyMsg
  folded : Int → List LogEntry
  tasks : List Task
  net : List Packet
  history : List Event

/-- One atomic step.  The `disk` argument is the outcome of the storage calls
made in the step. -/
inductive Action where
  | electionTimeout (i : Int) (disk : Disk)
  | campaign (i : Int) (term : Nat)
  | sendRequestVote (i peer : Int) (term : Nat)
  | becomeLeader (i : Int) (term : Nat)
  | heartbeat (i : Int)
  | sendAppendEntries (i peer : Int) (term commitIdx : Nat)
  | sendInstallSnapshot (i peer : Int) (term : Nat)
  | replicate (i : Int) (cmd : Bytes) (disk : Disk)
  /-- A poll of `ReplicateCommand` that finds the index committed. -/
  | poll (i : Int) (cmd : Bytes) (term index : Nat)
  /-- A call of `ReplicateCommand` that times out. -/
  | giveUp (i : Int) (cmd : Bytes) (term index : Nat)
  | receive (packet : Packet) (disk : Disk)
  | lose (packet : Packet)
  | duplicate (packet : Packet)
  | takeEntry (i : Int)
  | sendEntry (i : Int)
  /-- The application reads one message. -/
  | consume (i : Int)
  | snapshot (i : Int) (index : Nat) (data : Bytes) (disk : Disk)
  | restart (i : Int)
  deriving DecidableEq, Repr

/-- A condition on actions is decided by deciding it for every kind of action, and of
packet received. -/
@[reducible] def Action.decidable (P : Action → Prop)
    [∀ i disk, Decidable (P (.electionTimeout i disk))]
    [∀ i term, Decidable (P (.campaign i term))]
    [∀ i peer term, Decidable (P (.sendRequestVote i peer term))]
    [∀ i term, Decidable (P (.becomeLeader i term))]
    [∀ i, Decidable (P (.heartbeat i))]
    [∀ i peer term commitIdx, Decidable (P (.sendAppendEntries i peer term commitIdx))]
    [∀ i peer term, Decidable (P (.sendInstallSnapshot i peer term))]
    [∀ i cmd disk, Decidable (P (.replicate i cmd disk))]
    [∀ i cmd term index, Decidable (P (.poll i cmd term index))]
    [∀ i cmd term index, Decidable (P (.giveUp i cmd term index))]
    [∀ src dst req disk, Decidable (P (.receive (.requestVote src dst req) disk))]
    [∀ src dst term resp disk,
      Decidable (P (.receive (.requestVoteReply src dst term resp) disk))]
    [∀ src dst req disk, Decidable (P (.receive (.appendEntries src dst req) disk))]
    [∀ src dst req resp disk,
      Decidable (P (.receive (.appendEntriesReply src dst req resp) disk))]
    [∀ src dst req covered disk,
      Decidable (P (.receive (.installSnapshot src dst req covered) disk))]
    [∀ src dst req resp disk,
      Decidable (P (.receive (.installSnapshotReply src dst req resp) disk))]
    [∀ packet, Decidable (P (.lose packet))] [∀ packet, Decidable (P (.duplicate packet))]
    [∀ i, Decidable (P (.takeEntry i))] [∀ i, Decidable (P (.sendEntry i))]
    [∀ i, Decidable (P (.consume i))]
    [∀ i index data disk, Decidable (P (.snapshot i index data disk))]
    [∀ i, Decidable (P (.restart i))] : DecidablePred P
  | .electionTimeout _ _ | .campaign _ _ | .sendRequestVote _ _ _ | .becomeLeader _ _
  | .heartbeat _ | .sendAppendEntries _ _ _ _ | .sendInstallSnapshot _ _ _
  | .replicate _ _ _ | .poll _ _ _ _ | .giveUp _ _ _ _
  | .receive (.requestVote _ _ _) _ | .receive (.requestVoteReply _ _ _ _) _
  | .receive (.appendEntries _ _ _) _ | .receive (.appendEntriesReply _ _ _ _) _
  | .receive (.installSnapshot _ _ _ _) _ | .receive (.installSnapshotReply _ _ _ _) _
  | .lose _ | .duplicate _ | .takeEntry _ | .sendEntry _ | .consume _
  | .snapshot _ _ _ _ | .restart _ => inferInstance

namespace Cluster

/-- Every node freshly constructed and started, nothing stored. -/
def init (m : Membership) (snapshotThreshold : Int) : Cluster where
  node i := (Raft.newRaft
    { serverId := i, peers := m.ids.filter (· ≠ i), snapshotThreshold } {}).start
  applying _ := none
  folded _ := []
  tasks := []
  net := []
  history := []

/-- The whole log of a node: the entries its snapshot stands for, followed by
the retained ones. -/
def whole (s : Cluster) (i : Int) : List LogEntry := s.folded i ++ (s.node i).log

def setNode (s : Cluster) (i : Int) (r : Raft) : Cluster :=
  { s with node := Function.update s.node i r }

def setFolded (s : Cluster) (i : Int) (entries : List LogEntry) : Cluster :=
  { s with folded := Function.update s.folded i entries }

/-- What `becomeCandidate` starts once its timer is re-armed. -/
def campaignTasks (i : Int) (peers : List Peer) (term : Nat) : List Task :=
  if peers.length = 0 then [.becomeLeader i term]
  else peers.map fun p => .sendRequestVote i p.id term

/-- One `sendAppendEntries` goroutine for every peer. -/
def fanOut (i : Int) (r : Raft) : List Task :=
  r.peers.map fun p => .sendAppendEntries i p.id r.currentTerm r.commitIndex

/-- The commit event of a step that took node `i` from `old` to `new` by way of
`updateCommitIndex`. -/
def commitEvent (i : Int) (folded : List LogEntry) (old new : Raft) : List Event :=
  if old.commitIndex < new.commitIndex then
    [.committed i new.currentTerm new.commitIndex (folded ++ new.log)]
  else []

/-- Delivery of a message, after which it is no longer in flight. -/
def deliver (s : Cluster) (disk : Disk) : Packet → Option Cluster
  | .requestVote src dst req =>
      let (r, reply) := (s.node dst).requestVote req disk
      match reply with
      | .error _ => some (s.setNode dst r)
      | .ok resp =>
          some { s.setNode dst r with
            net := .requestVoteReply src dst req.term resp :: s.net
            history :=
              (if resp.voteGranted then [Event.granted dst resp.term req] else []) ++
                s.history }
  | .requestVoteReply src dst term resp =>
      let (r, elected) := (s.node src).handleRequestVoteResponse term resp
      some { s.setNode src r with
        tasks := (if elected then [Task.becomeLeader src term] else []) ++ s.tasks
        history :=
          (if (s.node src).votesReceived < r.votesReceived then
            [Event.counted src dst term] else []) ++ s.history }
  | .appendEntries src dst req =>
      match (s.node dst).appendEntries req disk with
      | none => none
      | some (r, .error _) => some (s.setNode dst r)
      | some (r, .ok resp) =>
          some { s.setNode dst r with
            net := .appendEntriesReply src dst req resp :: s.net
            history :=
              (if resp.success then
                [Event.acknowledged dst req.term (req.prevLogIndex + req.entries.length)]
                else []) ++ s.history }
  | .appendEntriesReply src dst req resp =>
      let (r, retry) := (s.node src).handleAppendEntriesResponse dst req resp
      some { s.setNode src r with
        tasks :=
          (if retry then [Task.sendAppendEntries src dst req.term req.leaderCommit]
            else []) ++ s.tasks
        history := commitEvent src (s.folded src) (s.node src) r ++ s.history }
  | .installSnapshot src dst req covered =>
      let (r, reply) := (s.node dst).installSnapshot req disk
      let s := if r.logBase = (s.node dst).logBase then s else s.setFolded dst covered
      match reply with
      | .error _ => some (s.setNode dst r)
      | .ok resp =>
          some { s.setNode dst r with
            net := .installSnapshotReply src dst req resp :: s.net }
  | .installSnapshotReply src dst req resp =>
      let r := (s.node src).handleInstallSnapshotResponse dst req resp
      some { s.setNode src r with
        history := commitEvent src (s.folded src) (s.node src) r ++ s.history }

/-- The step function; `none` when the action is not enabled, or when it makes
the node panic. -/
def step (m : Membership) (s : Cluster) : Action → Option Cluster
  | .electionTimeout i disk =>
      if i ∈ m.ids then
        let (r, campaign) := (s.node i).becomeCandidate disk
        some { s.setNode i r with
          tasks := (campaign.map (Task.campaign i)).toList ++ s.tasks
          history :=
            (if (s.node i).currentTerm < r.currentTerm then
              [Event.candidacy i r.currentTerm] else []) ++ s.history }
      else none
  | .campaign i term =>
      if Task.campaign i term ∈ s.tasks then
        let r := (s.node i).resetElectionTimerLocked
        some { s.setNode i r with
          tasks := campaignTasks i r.peers term ++ s.tasks.erase (.campaign i term) }
      else none
  | .sendRequestVote i peer term =>
      if Task.sendRequestVote i peer term ∈ s.tasks then
        some { s with
          tasks := s.tasks.erase (.sendRequestVote i peer term)
          net := .requestVote i peer ((s.node i).requestVoteRequest term) :: s.net }
      else none
  | .becomeLeader i term =>
      if Task.becomeLeader i term ∈ s.tasks then
        let r := (s.node i).becomeLeader
        some { s.setNode i r with
          tasks := s.tasks.erase (.becomeLeader i term)
          history :=
            (if (s.node i).state ≠ .leader ∧ r.state = .leader then
              [Event.promoted i r.currentTerm (s.whole i)] else []) ++ s.history }
      else none
  | .heartbeat i =>
      if i ∈ m.ids ∧ (s.node i).state = .leader ∧ (s.node i).shutdown = false then
        some { s with tasks := fanOut i (s.node i) ++ s.tasks }
      else none
  | .sendAppendEntries i peer term commitIdx =>
      if Task.sendAppendEntries i peer term commitIdx ∈ s.tasks then
        let tasks := s.tasks.erase (.sendAppendEntries i peer term commitIdx)
        match (s.node i).sendAppendEntries peer term commitIdx with
        | .nothing => some { s with tasks }
        | .installSnapshot =>
            some { s with tasks := .sendInstallSnapshot i peer term :: tasks }
        | .request req => some { s with tasks, net := .appendEntries i peer req :: s.net }
      else none
  | .sendInstallSnapshot i peer term =>
      if Task.sendInstallSnapshot i peer term ∈ s.tasks then
        let tasks := s.tasks.erase (.sendInstallSnapshot i peer term)
        match (s.node i).sendInstallSnapshot peer term with
        | none => some { s with tasks }
        | some req =>
            some { s with tasks, net := .installSnapshot i peer req (s.folded i) :: s.net }
      else none
  | .replicate i cmd disk =>
      if i ∈ m.ids then
        let (r, result) := (s.node i).replicateCommand cmd disk
        match result with
        | .error _ => some (s.setNode i r)
        | .ok index =>
            some { s.setNode i r with
              tasks := .awaitCommit i cmd r.currentTerm index :: fanOut i r ++ s.tasks
              history := commitEvent i (s.folded i) (s.node i) r ++
                [.acknowledged i r.currentTerm index,
                  .appended i ⟨index, r.currentTerm, cmd⟩] ++ s.history }
      else none
  | .poll i cmd term index =>
      if Task.awaitCommit i cmd term index ∈ s.tasks ∧ (s.node i).commitIndex ≥ index then
        some { s with tasks := s.tasks.erase (.awaitCommit i cmd term index) }
      else none
  | .giveUp i cmd term index =>
      if Task.awaitCommit i cmd term index ∈ s.tasks then
        some { s with tasks := s.tasks.erase (.awaitCommit i cmd term index) }
      else none
  | .receive packet disk =>
      if packet ∈ s.net then { s with net := s.net.erase packet }.deliver disk packet
      else none
  | .lose packet =>
      if packet ∈ s.net then some { s with net := s.net.erase packet } else none
  | .duplicate packet =>
      if packet ∈ s.net then some { s with net := packet :: s.net } else none
  | .takeEntry i =>
      match s.applying i with
      | some _ => none
      | none =>
          match (s.node i).takeEntry with
          | none => none
          | some (r, msg) =>
              some { s.setNode i r with
                applying := Function.update s.applying i (some msg) }
  | .sendEntry i =>
      match s.applying i with
      | none => none
      | some msg =>
          match (s.node i).sendEntry msg with
          | none => none
          | some r =>
              some { s.setNode i r with applying := Function.update s.applying i none }
  | .consume i =>
      some (s.setNode i { s.node i with applyCh := (s.node i).applyCh.tail })
  | .snapshot i index data disk =>
      -- the caller, `kv.takeSnapshot`, returns at once when the threshold is not positive
      if i ∈ m.ids ∧ (s.node i).snapshotThreshold > 0 then
        let r := ((s.node i).snapshotUpTo index data disk).1
        let s := if r.logBase = (s.node i).logBase then s
          else s.setFolded i ((s.whole i).take r.logBase)
        some (s.setNode i r)
      else none
  | .restart i =>
      if i ∈ m.ids then
        let r := (s.node i).restart
        some { (s.setFolded i ((s.folded i).take r.logBase)).setNode i r with
          applying := Function.update s.applying i none
          tasks := s.tasks.filter (·.node ≠ i)
          net := s.net.filter fun packet => !packet.isReplyTo i }
      else none

end Cluster

end DistribKV
