import DistribKV.Raft.Lifecycle
import DistribKV.Consensus.Runs

/-!
# One node and its environment

A node on its own, with requests and replies that may come from anywhere.  One
action is one critical section of the node, one step of its apply loop, or one
event around it.  `sent` and `votes` are history variables: the messages placed
on the apply channel, oldest first, and the votes given, newest first.
-/

namespace DistribKV

/-- A node, the message its apply loop has taken but not sent, and what it has
done so far. -/
structure Node where
  raft : Raft
  applying : Option ApplyMsg := none
  sent : List ApplyMsg := []
  votes : List (Nat × Int) := []
  deriving DecidableEq, Repr

/-- One atomic step of a node. -/
inductive NodeAction where
  | becomeCandidate (disk : Disk)
  | requestVoteReply (term : Nat) (resp : RequestVoteResponse)
  | becomeLeader
  | requestVote (req : RequestVoteRequest) (disk : Disk)
  | appendEntries (req : AppendEntriesRequest) (disk : Disk)
  | appendEntriesReply (peer : Int) (req : AppendEntriesRequest) (resp : AppendEntriesResponse)
  | installSnapshot (req : InstallSnapshotRequest) (disk : Disk)
  | installSnapshotReply (peer : Int) (req : InstallSnapshotRequest)
      (resp : InstallSnapshotResponse)
  | replicate (cmd : Bytes) (disk : Disk)
  | snapshot (index : Nat) (data : Bytes) (disk : Disk)
  | takeEntry
  | sendEntry
  | consume
  | restart
  deriving DecidableEq, Repr

/-- A condition on actions is decided by deciding it for every kind of action. -/
@[reducible] def NodeAction.decidable (P : NodeAction → Prop)
    [∀ disk, Decidable (P (.becomeCandidate disk))]
    [∀ term resp, Decidable (P (.requestVoteReply term resp))]
    [Decidable (P .becomeLeader)]
    [∀ req disk, Decidable (P (.requestVote req disk))]
    [∀ req disk, Decidable (P (.appendEntries req disk))]
    [∀ peer req resp, Decidable (P (.appendEntriesReply peer req resp))]
    [∀ req disk, Decidable (P (.installSnapshot req disk))]
    [∀ peer req resp, Decidable (P (.installSnapshotReply peer req resp))]
    [∀ cmd disk, Decidable (P (.replicate cmd disk))]
    [∀ index data disk, Decidable (P (.snapshot index data disk))]
    [Decidable (P .takeEntry)] [Decidable (P .sendEntry)]
    [Decidable (P .consume)] [Decidable (P .restart)] : DecidablePred P
  | .becomeCandidate _ | .requestVoteReply _ _ | .becomeLeader | .requestVote _ _
  | .appendEntries _ _ | .appendEntriesReply _ _ _ | .installSnapshot _ _
  | .installSnapshotReply _ _ _ | .replicate _ _ | .snapshot _ _ _
  | .takeEntry | .sendEntry | .consume | .restart => inferInstance

namespace Node

/-- A node constructed on what a persister holds, and started. -/
def init (cfg : Config) (persister : Persister) : Node where
  raft := (Raft.newRaft cfg persister).start
  sent := (Raft.newRaft cfg persister).applyCh

/-- The step function; `none` when the action is not enabled, or when it makes
the node panic. -/
def step (n : Node) : NodeAction → Option Node
  | .becomeCandidate disk =>
      let r := (n.raft.becomeCandidate disk).1
      some { n with
        raft := r
        votes :=
          (if n.raft.currentTerm < r.currentTerm then [(r.currentTerm, r.serverId)]
            else []) ++ n.votes }
  | .requestVoteReply term resp =>
      some { n with raft := (n.raft.handleRequestVoteResponse term resp).1 }
  | .becomeLeader => some { n with raft := n.raft.becomeLeader }
  | .requestVote req disk =>
      let (r, reply) := n.raft.requestVote req disk
      match reply with
      | .error _ => some { n with raft := r }
      | .ok resp =>
          some { n with
            raft := r
            votes :=
              (if resp.voteGranted then [(resp.term, req.candidateId)] else []) ++ n.votes }
  | .appendEntries req disk =>
      match n.raft.appendEntries req disk with
      | none => none
      | some (r, _) => some { n with raft := r }
  | .appendEntriesReply peer req resp =>
      some { n with raft := (n.raft.handleAppendEntriesResponse peer req resp).1 }
  | .installSnapshot req disk =>
      let r := (n.raft.installSnapshot req disk).1
      some { n with raft := r, sent := n.sent ++ r.applyCh.drop n.raft.applyCh.length }
  | .installSnapshotReply peer req resp =>
      some { n with raft := n.raft.handleInstallSnapshotResponse peer req resp }
  | .replicate cmd disk => some { n with raft := (n.raft.replicateCommand cmd disk).1 }
  | .snapshot index data disk => some { n with raft := (n.raft.snapshotUpTo index data disk).1 }
  | .takeEntry =>
      match n.applying with
      | some _ => none
      | none =>
          match n.raft.takeEntry with
          | none => none
          | some (r, msg) => some { n with raft := r, applying := some msg }
  | .sendEntry =>
      match n.applying with
      | none => none
      | some msg =>
          match n.raft.sendEntry msg with
          | none => none
          | some r => some { n with raft := r, applying := none, sent := n.sent ++ [msg] }
  | .consume => some { n with raft := { n.raft with applyCh := n.raft.applyCh.tail } }
  | .restart =>
      some { n with
        raft := n.raft.restart
        applying := none
        sent := n.sent ++ n.raft.restart.applyCh }

end Node

open Raft in
/-- The ways a step of a node can go. -/
inductive NodeEffect (n : Node) : NodeAction → Node → Prop where
  /-- Nothing but term, vote, role and bookkeeping changes. -/
  | yield {a : NodeAction} {r : Raft} (yields : Yields n.raft r) :
      NodeEffect n a { n with raft := r }
  | stand {disk : Disk} {r : Raft}
      (stood : r = n.raft.enterCandidate ∨ r = n.raft.enterCandidate.saved) :
      NodeEffect n (.becomeCandidate disk)
        { n with
          raft := r
          votes := (n.raft.currentTerm + 1, n.raft.serverId) :: n.votes }
  | grant {req : RequestVoteRequest} {disk : Disk} {r : Raft}
      (grants : Grants n.raft req r) :
      NodeEffect n (.requestVote req disk)
        { n with raft := r, votes := (req.term, req.candidateId) :: n.votes }
  /-- A vote is counted, a leader is promoted or updates its view of a peer, and
  the commit index may follow. -/
  | lead {a : NodeAction} {r : Raft} {state : State} {votesReceived : Nat}
      {leaderId : Int} {peers : List Peer} {electionTimer : Option Bool}
      {commitIndex : Nat} {commitCh : Bool}
      (led : r = { n.raft with
        state, votesReceived, leaderId, peers, electionTimer, commitIndex, commitCh })
      (commit : n.raft.commitIndex ≤ commitIndex) : NodeEffect n a { n with raft := r }
  | write {cmd : Bytes} {disk : Disk} {entry : LogEntry} {r : Raft} {commitIndex : Nat}
      {commitCh : Bool}
      (fresh : entry = ⟨n.raft.log.length + n.raft.logBase + 1, n.raft.currentTerm, cmd⟩)
      (stored : r = { saved { n.raft with log := n.raft.log ++ [entry] } with
        commitIndex, commitCh })
      (commit : n.raft.commitIndex ≤ commitIndex) :
      NodeEffect n (.replicate cmd disk) { n with raft := r }
  | append {req : AppendEntriesRequest} {disk : Disk} {heard r : Raft}
      {log : List LogEntry} {modified commitCh : Bool} {persister : Persister}
      {commitIndex : Nat} (yields : Yields n.raft heard)
      (accepts : Accepts n.raft req log modified)
      (stored : r = { heard with log, persister, commitIndex, commitCh })
      (file : persister.snapshotFile = n.raft.persister.snapshotFile)
      (commit : n.raft.commitIndex ≤ commitIndex)
      (onDisk : persister.log = n.raft.persister.log ∨ persister.log = log) :
      NodeEffect n (.appendEntries req disk) { n with raft := r }
  | compact {index : Nat} {data : Bytes} {disk : Disk} {entry : LogEntry} {r : Raft}
      {persister : Persister} (above : n.raft.logBase < index)
      (committed : index ≤ n.raft.commitIndex)
      (found : entryAt n.raft.log ((index : Int) - n.raft.logBase - 1) = some entry)
      (compacted : r = { n.raft.compact index data entry.term with persister })
      (file : persister.snapshotFile = n.raft.persister.snapshotFile ∨
        persister.snapshotFile = some ⟨data, index, entry.term⟩)
      (onDisk : persister.log = n.raft.persister.log ∨ persister.log = r.log) :
      NodeEffect n (.snapshot index data disk) { n with raft := r }
  /-- An installation; the message is queued when everything has been stored. -/
  | install {req : InstallSnapshotRequest} {disk : Disk} {heard r : Raft}
      {persister : Persister} {queued : List ApplyMsg}
      (called : (n.raft.installSnapshot req disk).1 = r)
      (installs : Installs n.raft req heard)
      (installed : r = { heard.install req with
        persister
        applyCh := n.raft.applyCh ++ queued })
      (file : persister.snapshotFile = n.raft.persister.snapshotFile ∨
        persister.snapshotFile =
          some ⟨req.data, req.lastIncludedIndex, req.lastIncludedTerm⟩)
      (queue : queued = [] ∧ (∃ err, (n.raft.installSnapshot req disk).2 = .error err) ∨
        queued = [.snapshot req.data req.lastIncludedIndex req.lastIncludedTerm])
      (onDisk : persister.log = n.raft.persister.log ∨ persister.log = r.log) :
      NodeEffect n (.installSnapshot req disk)
        { n with raft := r, sent := n.sent ++ queued }
  | take {entry : LogEntry} (idle : n.applying = none)
      (pending : n.raft.lastApplied < n.raft.commitIndex)
      (found : entryAt n.raft.log
        (((n.raft.lastApplied + 1 : Nat) : Int) - n.raft.logBase - 1) = some entry) :
      NodeEffect n .takeEntry
        { n with
          raft := { n.raft with lastApplied := n.raft.lastApplied + 1 }
          applying := some (.command entry.command entry.index) }
  | send {msg : ApplyMsg} (held : n.applying = some msg) :
      NodeEffect n .sendEntry
        { n with
          raft := { n.raft with applyCh := n.raft.applyCh ++ [msg] }
          applying := none
          sent := n.sent ++ [msg] }
  | consume :
      NodeEffect n .consume { n with raft := { n.raft with applyCh := n.raft.applyCh.tail } }
  | restart :
      NodeEffect n .restart
        { n with
          raft := n.raft.restart
          applying := none
          sent := n.sent ++ n.raft.restart.applyCh }

namespace Node

variable {n n' : Node}

/-- An installation as seen by the node's environment. -/
theorem effect_of_installSnapshot {req : InstallSnapshotRequest} {disk : Disk}
    (stepped : n.step (.installSnapshot req disk) = some n') :
    NodeEffect n (.installSnapshot req disk) n' := by
  simp only [step] at stepped
  cases called : n.raft.installSnapshot req disk with
  | mk r reply =>
      rw [called] at stepped
      cases stepped
      rcases Raft.installSnapshot_cases called with yields | ⟨heard, installs, outcome⟩
      · have queue : r.applyCh.drop n.raft.applyCh.length = [] := by simp [yields.applyCh]
        rw [queue, List.append_nil]
        exact .yield yields
      · have sameCh := installs.yields.applyCh
        have sameFile := congrArg Persister.snapshotFile installs.yields.persister
        have sameLog := congrArg Persister.log installs.yields.persister
        have queues : ∀ queued, r = { heard.install req with
              persister := r.persister
              applyCh := n.raft.applyCh ++ queued } →
            (r.persister.snapshotFile = n.raft.persister.snapshotFile ∨
              r.persister.snapshotFile =
                some ⟨req.data, req.lastIncludedIndex, req.lastIncludedTerm⟩) →
            (queued = [] ∧ (∃ err, (n.raft.installSnapshot req disk).2 = .error err) ∨
              queued = [.snapshot req.data req.lastIncludedIndex req.lastIncludedTerm]) →
            (r.persister.log = n.raft.persister.log ∨ r.persister.log = r.log) →
            NodeEffect n (.installSnapshot req disk)
              { n with raft := r, sent := n.sent ++ r.applyCh.drop n.raft.applyCh.length } := by
          intro queued installed file queue onDisk
          have new : r.applyCh.drop n.raft.applyCh.length = queued := by
            rw [installed]
            simp
          rw [new]
          exact .install (by rw [called]) installs installed file queue onDisk
        rcases outcome with ⟨rfl, err, rfl⟩ | ⟨rfl, err, rfl⟩ | ⟨rfl, err, rfl⟩ | ⟨rfl, rfl⟩
        · refine queues [] ?_ (.inl sameFile) (.inl ⟨rfl, err, by rw [called]⟩) (.inl sameLog)
          rw [List.append_nil, ← sameCh]
          rfl
        · refine queues [] ?_ (.inl sameFile) (.inl ⟨rfl, err, by rw [called]⟩) (.inr rfl)
          rw [List.append_nil, ← sameCh]
          rfl
        · refine queues [] ?_ (.inr rfl) (.inl ⟨rfl, err, by rw [called]⟩) (.inr rfl)
          rw [List.append_nil, ← sameCh]
          rfl
        · refine queues _ ?_ (.inr rfl) (.inr rfl) (.inr rfl)
          rw [← sameCh]
          rfl

/-- An append as seen by the node's environment. -/
theorem effect_of_appendEntries {req : AppendEntriesRequest} {disk : Disk}
    (stepped : n.step (.appendEntries req disk) = some n') :
    NodeEffect n (.appendEntries req disk) n' := by
  simp only [step] at stepped
  split at stepped
  · cases stepped
  next r reply called =>
    cases stepped
    rcases Raft.appendEntries_cases called with
      ⟨yields, -⟩ | ⟨heard, log, modified, yields, term, accepts, outcome⟩
    · exact .yield yields
    · have sameFile := congrArg Persister.snapshotFile yields.persister
      have sameLog := congrArg Persister.log yields.persister
      rcases outcome with ⟨-, rfl, -⟩ | ⟨commitCh, rfl, -⟩
      · exact .append yields accepts rfl sameFile (Nat.le_of_eq yields.commitIndex.symm)
          (.inl sameLog)
      · refine .append yields accepts rfl ?_ ?_ ?_
        · split
          · exact sameFile
          · exact sameFile
        · rw [← yields.commitIndex]
          exact Nat.le_max_left _ _
        · split
          · exact .inr rfl
          · exact .inl sameLog

theorem effect_of_becomeCandidate {disk : Disk}
    (stepped : n.step (.becomeCandidate disk) = some n') :
    NodeEffect n (.becomeCandidate disk) n' := by
  cases stepped
  cases called : n.raft.becomeCandidate disk with
  | mk r campaign =>
      rcases Raft.becomeCandidate_cases called with
        ⟨rfl, -⟩ | ⟨-, ⟨rfl, -⟩ | ⟨rfl, -⟩⟩
      · simp only [Nat.lt_irrefl, if_false, List.nil_append]
        exact .yield (.refl _)
      · simp only [Raft.enterCandidate, Nat.lt_succ_self, if_true]
        exact .stand (.inl rfl)
      · simp only [Raft.enterCandidate, Raft.saved, Nat.lt_succ_self, if_true]
        exact .stand (.inr rfl)

theorem effect_of_requestVote {req : RequestVoteRequest} {disk : Disk}
    (stepped : n.step (.requestVote req disk) = some n') :
    NodeEffect n (.requestVote req disk) n' := by
  simp only [step] at stepped
  cases called : n.raft.requestVote req disk with
  | mk r reply =>
      rw [called] at stepped
      rcases Raft.requestVote_cases called with ⟨grants, rfl⟩ | ⟨yields, refused⟩
      · cases stepped
        exact .grant grants
      · cases reply with
        | error err =>
            cases stepped
            exact .yield yields
        | ok resp =>
            cases stepped
            simp only [refused resp rfl, Bool.false_eq_true, if_false, List.nil_append]
            exact .yield yields

/-- Every step of a node is one of the listed ones. -/
theorem effect_of_step {a : NodeAction} (stepped : n.step a = some n') :
    NodeEffect n a n' := by
  have quiet : ∀ {r : Raft}, n.raft.Yields r → NodeEffect n a { n with raft := r } :=
    fun yields => .yield yields
  cases a with
  | becomeCandidate disk => exact effect_of_becomeCandidate stepped
  | requestVoteReply term resp =>
      cases stepped
      cases called : n.raft.handleRequestVoteResponse term resp with
      | mk r elected =>
          rcases Raft.handleRequestVoteResponse_cases called with
            ⟨-, -, -, rfl, -⟩ | ⟨yields, -⟩
          · exact .lead rfl (Nat.le_refl _)
          · exact quiet yields
  | becomeLeader =>
      cases stepped
      rcases n.raft.becomeLeader_cases with same | ⟨-, promoted⟩
      · rw [same]
        exact quiet (.refl _)
      · rw [promoted]
        exact .lead rfl (Nat.le_refl _)
  | requestVote req disk => exact effect_of_requestVote stepped
  | appendEntries req disk => exact effect_of_appendEntries stepped
  | appendEntriesReply peer req resp =>
      cases stepped
      cases called : n.raft.handleAppendEntriesResponse peer req resp with
      | mk r retry =>
          rcases Raft.handleAppendEntriesResponse_cases called with
            ⟨yields, -⟩ | ⟨-, -, ⟨-, -, rfl⟩ | ⟨-, rfl⟩⟩
          · exact quiet yields
          · obtain ⟨_, _, commit, moved⟩ := Raft.updateCommitIndex_eq (n.raft.updatePeer peer _)
            exact .lead moved commit
          · exact .lead rfl (Nat.le_refl _)
  | installSnapshot req disk => exact effect_of_installSnapshot stepped
  | installSnapshotReply peer req resp =>
      cases stepped
      rcases n.raft.handleInstallSnapshotResponse_cases peer req resp with
        yields | ⟨-, -, updated⟩
      · exact quiet yields
      · rw [updated]
        obtain ⟨_, _, commit, moved⟩ := Raft.updateCommitIndex_eq (n.raft.updatePeer peer _)
        exact .lead moved commit
  | replicate cmd disk =>
      cases stepped
      cases called : n.raft.replicateCommand cmd disk with
      | mk r result =>
          rcases Raft.replicateCommand_cases called with
            ⟨rfl, -⟩ | ⟨-, entry, fresh, -, rfl⟩
          · exact quiet (.refl _)
          · obtain ⟨_, _, commit, moved⟩ := Raft.updateCommitIndex_eq
              (Raft.saved { n.raft with log := n.raft.log ++ [entry] })
            exact .write fresh moved commit
  | snapshot index data disk =>
      cases stepped
      cases called : n.raft.snapshotUpTo index data disk with
      | mk r err =>
          rcases Raft.snapshotUpTo_cases called with
            rfl | ⟨above, committed, entry, found, -, ⟨rfl, -⟩ | ⟨rfl, -⟩ | ⟨rfl, -⟩⟩
          · exact quiet (.refl _)
          · exact .compact above committed found rfl (.inl rfl) (.inl rfl)
          · exact .compact above committed found rfl (.inl rfl) (.inr rfl)
          · exact .compact above committed found rfl (.inr rfl) (.inr rfl)
  | takeEntry =>
      simp only [step] at stepped
      split at stepped
      · cases stepped
      next idle =>
        split at stepped
        · cases stepped
        next taken =>
          obtain ⟨pending, entry, found, rfl, rfl⟩ := Raft.takeEntry_cases taken
          cases stepped
          exact .take idle pending found
  | sendEntry =>
      simp only [step] at stepped
      split at stepped
      · cases stepped
      next msg held =>
        split at stepped
        · cases stepped
        next r sent =>
          rw [Raft.sendEntry_eq sent] at stepped
          cases stepped
          exact .send held
  | consume =>
      cases stepped
      exact .consume
  | restart =>
      cases stepped
      exact .restart

end Node

end DistribKV
