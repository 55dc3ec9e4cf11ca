import DistribKV.Cluster.Model
import DistribKV.KV.Rpc

/-!
# The service

All of a running service: the cluster, a key-value server on every node, and the
calls of clients.  A call goes through the `Get`, `Put` or `Append` handler of the
node it was sent to: the handler looks at the role of the node, `submitOperation`
gives the command to `ReplicateCommand`, which appends it and polls, and then the
handler waits for the server's apply loop.

A step is one step of the cluster, one of the handlers of a node, or one that both
take together.  The apply loop of a server reads a message, hands the result to
`notifyWaiter`, and then takes a snapshot if it is time.  After `Kill` its channel is
drained as well.
-/

namespace DistribKV

open KV

/-! ## Calls -/

/-- A call of a client, by the node it was sent to and a number. -/
structure CallId where
  node : Int
  number : Nat
  deriving DecidableEq, Repr

inductive Request where
  | get (req : GetRequest)
  | put (req : PutRequest)
  | append (req : AppendRequest)
  deriving DecidableEq, Repr

def Request.op : Request → Op
  | .get req => req.op
  | .put req => req.op
  | .append req => req.op

inductive Response where
  | get (resp : GetResponse)
  | put (resp : PutResponse)
  | append (resp : AppendResponse)
  deriving DecidableEq, Repr

/-- The response of a handler to what `submitOperation` returned. -/
def Request.response (r : Raft) (outcome : Except String Result) : Request → Response
  | .get _ => .get (getResponse r outcome)
  | .put _ => .put (writeResponse r outcome)
  | .append _ => .append (writeResponse r outcome)

/-- What clients see. -/
inductive ClientEvent where
  | invoked (call : CallId) (req : Request)
  | responded (call : CallId) (resp : Response)
  deriving DecidableEq, Repr

/-! ## The state -/

/-- The service.  `request` and `entry` are the variables of a call: what it asks
for, and the log entry `ReplicateCommand` made of it.  A server whose apply loop has
executed a command is `triggered` until it has looked whether to take a snapshot,
and has one `pending` until the node has seen it. -/
structure System where
  cluster : Cluster
  kv : Int → Handlers
  triggered : Int → Bool
  pending : Int → Option (Nat × Bytes)
  request : CallId → Option Request
  entry : CallId → Option LogEntry
  history : List ClientEvent

/-- One atomic step. -/
inductive SystemAction where
  /-- A request arrives; the handler goes as far as `ReplicateCommand`. -/
  | request (call : CallId) (req : Request) (now : Int)
  /-- The append step of `ReplicateCommand`. -/
  | replicate (call : CallId) (disk : Disk)
  | poll (call : CallId)
  | giveUp (call : CallId)
  /-- A step of the handlers or the apply loop of a server on its own. -/
  | server (i : Int) (a : HandlerAction)
  /-- The apply loop of a server reads a message. -/
  | apply (i : Int) (now : Moment)
  /-- `Kill` reads a message and drops it. -/
  | drain (i : Int)
  | takeSnapshot (i : Int) (now : Int)
  | snapshot (i : Int) (disk : Disk)
  | respond (call : CallId)
  /-- The process of a node crashes and is started again. -/
  | restart (i : Int)
  /-- A step of the cluster that no server takes part in. -/
  | raft (a : Action)
  deriving DecidableEq

/-- Steps of a server in which its node takes no part. -/
def KV.HandlerAction.isLocal : HandlerAction → Bool
  | .register _ | .receive _ | .timeout _ | .cleanup _ | .shutdown _ => true
  | .notify _ | .send | .kill => true
  | _ => false

/-- Steps of the cluster that belong to calls and servers. -/
def Action.isShared : Action → Bool
  | .replicate _ _ _ | .poll _ _ _ _ | .giveUp _ _ _ _ => true
  | .consume _ | .snapshot _ _ _ _ | .restart _ => true
  | _ => false

namespace System

/-- Every node and every server freshly started. -/
def init (m : Membership) (snapshotThreshold maxPending : Int) : System where
  cluster := Cluster.init m snapshotThreshold
  kv _ := Handlers.newServer maxPending
  triggered _ := false
  pending _ := none
  request _ := none
  entry _ := none
  history := []

def setKv (s : System) (i : Int) (kv : Handlers) : System :=
  { s with kv := Function.update s.kv i kv }

/-- The error of `serializeCommand`, if any. -/
def encodeErr (codec : CommandCodec) (op : Op) : Option String :=
  match serializeCommand codec op with
  | .error err => some err
  | .ok _ => none

/-- The server after `Raft.Snapshot` has returned. -/
def settle (kv : Handlers) (index : Nat) : Option String → Handlers
  | none => { kv with server := { kv.server with lastSnapshotIndex := index } }
  | some _ => kv

/-- What a call has been told. -/
def responses (s : System) (call : CallId) : List Response :=
  s.history.filterMap fun event =>
    match event with
    | .responded other resp => if other = call then some resp else none
    | .invoked _ _ => none

/-- The step function; `none` when the action is not enabled, or when it makes a node
panic. -/
def step (m : Membership) (codec : CommandCodec) (s : System) : SystemAction → Option System
  | .request call req now =>
      if call.node ∈ m.ids ∧ s.request call = none then
        let s := { s with
          request := Function.update s.request call (some req)
          history := .invoked call req :: s.history }
        let kv := s.kv call.node
        if (s.cluster.node call.node).isLeader then do
          let kv ← kv.step codec.toJson
            (.submit call.number req.op (encodeErr codec req.op) now)
          some (s.setKv call.node kv)
        else some (s.setKv call.node (kv.setCall call.number (.returned (.error errNotLeader))))
      else none
  | .replicate call disk => do
      let req ← s.request call
      let data ← (serializeCommand codec req.op).toOption
      let cluster ← s.cluster.step m (.replicate call.node data disk)
      match (s.cluster.node call.node).replicateCommand data disk with
      | (_, .error err) =>
          let kv ← (s.kv call.node).step codec.toJson (.replicateFailed call.number err)
          some ({ s with cluster }.setKv call.node kv)
      | (r, .ok index) =>
          let kv ← (s.kv call.node).step codec.toJson (.append call.number index)
          some ({ s with
            cluster
            entry := Function.update s.entry call (some ⟨index, r.currentTerm, data⟩)
            }.setKv call.node kv)
  | .poll call => do
      let entry ← s.entry call
      let cluster ← s.cluster.step m (.poll call.node entry.command entry.term entry.index)
      let kv ← (s.kv call.node).step codec.toJson (.replicated call.number)
      some ({ s with cluster }.setKv call.node kv)
  | .giveUp call => do
      let entry ← s.entry call
      let cluster ← s.cluster.step m (.giveUp call.node entry.command entry.term entry.index)
      let kv ← (s.kv call.node).step codec.toJson (.replicateFailed call.number .timeout)
      some ({ s with cluster }.setKv call.node kv)
  | .server i a =>
      if a.isLocal then do
        let kv ← (s.kv i).step codec.toJson a
        some (s.setKv i kv)
      else none
  | .apply i now =>
      if s.triggered i = false ∧ s.pending i = none then do
        let msg ← (s.cluster.node i).applyCh.head?
        let cluster ← s.cluster.step m (.consume i)
        let kv ← (s.kv i).step codec.toJson (.apply msg now)
        some ({ s with
          cluster
          triggered := Function.update s.triggered i
            ((s.kv i).server.processApplyMsg codec.toJson now msg).triggers }.setKv i kv)
      else none
  | .drain i =>
      if (s.kv i).dead then do
        let _ ← (s.cluster.node i).applyCh.head?
        let cluster ← s.cluster.step m (.consume i)
        some { s with cluster }
      else none
  | .takeSnapshot i now =>
      if s.triggered i = true ∧ (s.kv i).loop = .idle then
        some { s with
          triggered := Function.update s.triggered i false
          pending := Function.update s.pending i ((s.kv i).server.takeSnapshot codec.toJson
            (s.cluster.node i).snapshotThreshold now) }
      else none
  | .snapshot i disk => do
      let (index, data) ← s.pending i
      let cluster ← s.cluster.step m (.snapshot i index data disk)
      let err := ((s.cluster.node i).snapshotUpTo index data disk).2
      some ({ s with cluster, pending := Function.update s.pending i none }.setKv i
        (settle (s.kv i) index err))
  | .respond call => do
      let req ← s.request call
      match (s.kv call.node).call call.number with
      | .returned outcome =>
          if s.responses call = [] then
            some { s with
              history := .responded call
                (req.response (s.cluster.node call.node) outcome) :: s.history }
          else none
      | _ => none
  | .restart i => do
      let cluster ← s.cluster.step m (.restart i)
      some ({ s with
        cluster
        triggered := Function.update s.triggered i false
        pending := Function.update s.pending i none }.setKv i
          (Handlers.newServer (s.kv i).maxPending))
  | .raft a =>
      if a.isShared then none
      else do
        let cluster ← s.cluster.step m a
        some { s with cluster }

/-! ## What one step does -/

/-- The ways a step can go. -/
inductive Effect (m : Membership) (codec : CommandCodec) (s : System) :
    SystemAction → System → Prop where
  | refuse {call : CallId} {req : Request} {now : Int} (fresh : s.request call = none) :
      Effect m codec s (.request call req now)
        ({ s with
          request := Function.update s.request call (some req)
          history := .invoked call req :: s.history }.setKv call.node
            ((s.kv call.node).setCall call.number (.returned (.error errNotLeader))))
  | request {call : CallId} {req : Request} {now : Int} {kv : Handlers}
      (fresh : s.request call = none)
      (submitted : (s.kv call.node).step codec.toJson
        (.submit call.number req.op (encodeErr codec req.op) now) = some kv) :
      Effect m codec s (.request call req now)
        ({ s with
          request := Function.update s.request call (some req)
          history := .invoked call req :: s.history }.setKv call.node kv)
  | replicateFailed {call : CallId} {disk : Disk} {data : Bytes} {cluster : Cluster}
      {err : Raft.ReplicateError} {kv : Handlers}
      (stepped : s.cluster.step m (.replicate call.node data disk) = some cluster)
      (called : ((s.cluster.node call.node).replicateCommand data disk).2 = .error err)
      (failed : (s.kv call.node).step codec.toJson (.replicateFailed call.number err) = some kv) :
      Effect m codec s (.replicate call disk) ({ s with cluster }.setKv call.node kv)
  | replicate {call : CallId} {disk : Disk} {req : Request} {data : Bytes} {cluster : Cluster}
      {index : Nat} {kv : Handlers} (asked : s.request call = some req)
      (serialized : serializeCommand codec req.op = .ok data)
      (stepped : s.cluster.step m (.replicate call.node data disk) = some cluster)
      (called : ((s.cluster.node call.node).replicateCommand data disk).2 = .ok index)
      (appended : (s.kv call.node).step codec.toJson (.append call.number index) = some kv) :
      Effect m codec s (.replicate call disk)
        ({ s with
          cluster
          entry := Function.update s.entry call (some ⟨index,
            ((s.cluster.node call.node).replicateCommand data disk).1.currentTerm, data⟩)
          }.setKv call.node kv)
  | poll {call : CallId} {entry : LogEntry} {cluster : Cluster} {kv : Handlers}
      (waiting : s.entry call = some entry)
      (stepped : s.cluster.step m (.poll call.node entry.command entry.term entry.index) =
        some cluster)
      (replicated : (s.kv call.node).step codec.toJson (.replicated call.number) = some kv) :
      Effect m codec s (.poll call) ({ s with cluster }.setKv call.node kv)
  | giveUp {call : CallId} {entry : LogEntry} {cluster : Cluster} {kv : Handlers}
      (stepped : s.cluster.step m (.giveUp call.node entry.command entry.term entry.index) =
        some cluster)
      (failed : (s.kv call.node).step codec.toJson (.replicateFailed call.number .timeout) =
        some kv) :
      Effect m codec s (.giveUp call) ({ s with cluster }.setKv call.node kv)
  | server {i : Int} {a : HandlerAction} {kv : Handlers} (isLocal : a.isLocal = true)
      (stepped : (s.kv i).step codec.toJson a = some kv) :
      Effect m codec s (.server i a) (s.setKv i kv)
  | apply {i : Int} {now : Moment} {msg : ApplyMsg} {cluster : Cluster} {kv : Handlers}
      {triggered : Int → Bool} (read : (s.cluster.node i).applyCh.head? = some msg)
      (stepped : s.cluster.step m (.consume i) = some cluster)
      (applied : (s.kv i).step codec.toJson (.apply msg now) = some kv) :
      Effect m codec s (.apply i now) ({ s with cluster, triggered }.setKv i kv)
  | drain {i : Int} {msg : ApplyMsg} {cluster : Cluster} (dead : (s.kv i).dead = true)
      (read : (s.cluster.node i).applyCh.head? = some msg)
      (stepped : s.cluster.step m (.consume i) = some cluster) :
      Effect m codec s (.drain i) { s with cluster }
  | takeSnapshot {i : Int} {now : Int} {triggered : Int → Bool} :
      Effect m codec s (.takeSnapshot i now)
        { s with
          triggered
          pending := Function.update s.pending i ((s.kv i).server.takeSnapshot codec.toJson
            (s.cluster.node i).snapshotThreshold now) }
  | snapshot {i : Int} {disk : Disk} {index : Nat} {data : Bytes} {cluster : Cluster}
      {err : Option String} (taken : s.pending i = some (index, data))
      (stepped : s.cluster.step m (.snapshot i index data disk) = some cluster) :
      Effect m codec s (.snapshot i disk)
        ({ s with cluster, pending := Function.update s.pending i none }.setKv i
          (settle (s.kv i) index err))
  | respond {call : CallId} {req : Request} {outcome : Except String Result}
      (asked : s.request call = some req)
      (returned : (s.kv call.node).call call.number = .returned outcome) :
      Effect m codec s (.respond call)
        { s with
          history := .responded call
            (req.response (s.cluster.node call.node) outcome) :: s.history }
  | restart {i : Int} {cluster : Cluster} {triggered : Int → Bool}
      {pending : Int → Option (Nat × Bytes)}
      (stepped : s.cluster.step m (.restart i) = some cluster) :
      Effect m codec s (.restart i)
        ({ s with cluster, triggered, pending }.setKv i
          (Handlers.newServer (s.kv i).maxPending))
  | raft {a : Action} {cluster : Cluster} (own : a.isShared = false)
      (stepped : s.cluster.step m a = some cluster) :
      Effect m codec s (.raft a) { s with cluster }

variable {m : Membership} {codec : CommandCodec} {s s' : System} {a : SystemAction}

/-- Every step is one of the listed ones. -/
theorem effect_of_step (stepped : s.step m codec a = some s') : Effect m codec s a s' := by
  cases a with
  | request call req now =>
      simp only [step] at stepped
      split at stepped
      next enabled =>
        split at stepped
        · obtain ⟨kv, submitted, result⟩ := Option.bind_eq_some_iff.mp stepped
          cases result
          exact .request enabled.2 submitted
        · cases stepped
          exact .refuse enabled.2
      · cases stepped
  | replicate call disk =>
      simp only [step, Option.bind_eq_bind, Option.bind_eq_some_iff] at stepped
      obtain ⟨req, asked, data, serialized, cluster, moved, rest⟩ := stepped
      cases called : (s.cluster.node call.node).replicateCommand data disk with
      | mk r result =>
          rw [called] at rest
          cases result with
          | error err =>
              obtain ⟨kv, failed, result⟩ := Option.bind_eq_some_iff.mp rest
              cases result
              exact .replicateFailed moved (by rw [called]) failed
          | ok index =>
              obtain ⟨kv, appended, result⟩ := Option.bind_eq_some_iff.mp rest
              cases result
              have term : r = ((s.cluster.node call.node).replicateCommand data disk).1 := by
                rw [called]
              rw [term]
              refine .replicate asked ?_ moved (by rw [called]) appended
              cases encoded : serializeCommand codec req.op with
              | error err => simp [encoded, Except.toOption] at serialized
              | ok data' => simpa [encoded, Except.toOption] using serialized
  | poll call =>
      simp only [step, Option.bind_eq_bind, Option.bind_eq_some_iff] at stepped
      obtain ⟨entry, waiting, cluster, moved, kv, replicated, result⟩ := stepped
      cases result
      exact .poll waiting moved replicated
  | giveUp call =>
      simp only [step, Option.bind_eq_bind, Option.bind_eq_some_iff] at stepped
      obtain ⟨entry, waiting, cluster, moved, kv, failed, result⟩ := stepped
      cases result
      exact .giveUp moved failed
  | server i a =>
      simp only [step] at stepped
      split at stepped
      next isLocal =>
        obtain ⟨kv, moved, result⟩ := Option.bind_eq_some_iff.mp stepped
        cases result
        exact .server isLocal moved
      · cases stepped
  | apply i now =>
      simp only [step] at stepped
      split at stepped
      · simp only [Option.bind_eq_bind, Option.bind_eq_some_iff] at stepped
        obtain ⟨msg, read, cluster, moved, kv, applied, result⟩ := stepped
        cases result
        exact .apply read moved applied
      · cases stepped
  | drain i =>
      simp only [step] at stepped
      split at stepped
      next dead =>
        simp only [Option.bind_eq_bind, Option.bind_eq_some_iff] at stepped
        obtain ⟨msg, read, cluster, moved, result⟩ := stepped
        cases result
        exact .drain dead read moved
      · cases stepped
  | takeSnapshot i now =>
      simp only [step] at stepped
      split at stepped
      · cases stepped
        exact .takeSnapshot
      · cases stepped
  | snapshot i disk =>
      simp only [step, Option.bind_eq_bind, Option.bind_eq_some_iff] at stepped
      obtain ⟨⟨index, data⟩, taken, cluster, moved, result⟩ := stepped
      cases result
      exact .snapshot taken moved
  | respond call =>
      simp only [step, Option.bind_eq_bind, Option.bind_eq_some_iff] at stepped
      obtain ⟨req, asked, rest⟩ := stepped
      split at rest
      next outcome returned =>
        split at rest
        · cases rest
          exact .respond asked returned
        · cases rest
      · cases rest
  | restart i =>
      simp only [step, Option.bind_eq_bind, Option.bind_eq_some_iff] at stepped
      obtain ⟨cluster, moved, result⟩ := stepped
      cases result
      exact .restart moved
  | raft a =>
      simp only [step] at stepped
      split at stepped
      · cases stepped
      next own =>
        obtain ⟨cluster, moved, result⟩ := Option.bind_eq_some_iff.mp stepped
        cases result
        exact .raft (by simpa using own) moved

end System

end DistribKV
