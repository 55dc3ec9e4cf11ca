import DistribKV.Cluster.Model
import DistribKV.Raft.Log
import Mathlib.Data.List.Perm.Subperm

/-!
# What one step of the cluster does

Every step changes one node and adds tasks, messages and history events.
`Effect` lists the ways in which that can happen, one constructor for each, with
the facts the code has checked on the way; `effect_of_step` is the only place
where the step function is taken apart.
-/

namespace DistribKV

/-- The visible outcome of one step. -/
structure Outcome where
  node : Int
  raft : Raft
  folded : List LogEntry
  finished : List Task := []
  tasks : List Task := []
  delivered : List Packet := []
  packets : List Packet := []
  events : List Event := []

/-- `s'` is `s` after the given outcome.  Tasks and messages may also get lost. -/
structure Applies (s : Cluster) (o : Outcome) (s' : Cluster) : Prop where
  node : s'.node = Function.update s.node o.node o.raft
  folded : s'.folded = Function.update s.folded o.node o.folded
  tasks : (o.finished ++ s'.tasks).Subperm (o.tasks ++ s.tasks)
  net : (o.delivered ++ s'.net).Subperm (o.packets ++ s.net)
  history : s'.history = o.events ++ s.history

namespace Applies

variable {s s' : Cluster} {o : Outcome}

theorem node_self (applies : Applies s o s') : s'.node o.node = o.raft := by
  simp [applies.node]

theorem node_of_ne (applies : Applies s o s') {j : Int} (ne : j ≠ o.node) :
    s'.node j = s.node j := by
  simp [applies.node, ne]

theorem folded_self (applies : Applies s o s') : s'.folded o.node = o.folded := by
  simp [applies.folded]

theorem folded_of_ne (applies : Applies s o s') {j : Int} (ne : j ≠ o.node) :
    s'.folded j = s.folded j := by
  simp [applies.folded, ne]

theorem mem_tasks (applies : Applies s o s') {task : Task} (member : task ∈ s'.tasks) :
    task ∈ o.tasks ∨ task ∈ s.tasks :=
  List.mem_append.mp (applies.tasks.subset (List.mem_append_right _ member))

theorem mem_net (applies : Applies s o s') {packet : Packet} (member : packet ∈ s'.net) :
    packet ∈ o.packets ∨ packet ∈ s.net :=
  List.mem_append.mp (applies.net.subset (List.mem_append_right _ member))

theorem mem_history (applies : Applies s o s') {event : Event} :
    event ∈ s'.history ↔ event ∈ o.events ∨ event ∈ s.history := by
  rw [applies.history, List.mem_append]

theorem history_mono (applies : Applies s o s') {event : Event}
    (member : event ∈ s.history) : event ∈ s'.history :=
  applies.mem_history.mpr (.inr member)

theorem whole_self (applies : Applies s o s') :
    s'.whole o.node = o.folded ++ o.raft.log := by
  rw [Cluster.whole, applies.folded_self, applies.node_self]

theorem whole_of_ne (applies : Applies s o s') {j : Int} (ne : j ≠ o.node) :
    s'.whole j = s.whole j := by
  rw [Cluster.whole, Cluster.whole, applies.folded_of_ne ne, applies.node_of_ne ne]

/-- The node and its snapshot stay, so only tasks, messages and history matter. -/
theorem of_unchanged (raft : o.raft = s.node o.node)
    (folded : o.folded = s.folded o.node) (node : s'.node = s.node)
    (foldedAll : s'.folded = s.folded)
    (tasks : (o.finished ++ s'.tasks).Subperm (o.tasks ++ s.tasks))
    (net : (o.delivered ++ s'.net).Subperm (o.packets ++ s.net))
    (history : s'.history = o.events ++ s.history) : Applies s o s' where
  node := by rw [raft, node, Function.update_eq_self]
  folded := by rw [folded, foldedAll, Function.update_eq_self]
  tasks := tasks
  net := net
  history := history

end Applies

open Raft in
/-- The ways a step can go.  Node `i` of the outcome is the one that acts. -/
inductive Effect (m : Membership) (s : Cluster) : Action → Outcome → Prop where
  /-- Nothing but term, vote, role and bookkeeping of the node changes. -/
  | yield {a : Action} {i : Int} {r : Raft} {finished : List Task}
      {delivered : List Packet} (yields : Yields (s.node i) r) :
      Effect m s a { node := i, raft := r, folded := s.folded i, finished, delivered }
  /-- A step of the apply loop or of the application. -/
  | apply {a : Action} {i : Int} {lastApplied : Nat} {applyCh : List ApplyMsg} :
      Effect m s a
        { node := i
          raft := { s.node i with lastApplied, applyCh }
          folded := s.folded i }
  | duplicate {packet : Packet} (inNet : packet ∈ s.net) :
      Effect m s (.duplicate packet)
        { node := 0, raft := s.node 0, folded := s.folded 0, packets := [packet] }
  /-- A candidacy that could not be stored: the node does not campaign. -/
  | standUnsaved {i : Int} {disk : Disk} (member : i ∈ m.ids)
      (notLeader : (s.node i).state ≠ .leader) :
      Effect m s (.electionTimeout i disk)
        { node := i
          raft := (s.node i).enterCandidate
          folded := s.folded i
          events := [.candidacy i ((s.node i).currentTerm + 1)] }
  | stand {i : Int} {disk : Disk} (member : i ∈ m.ids)
      (notLeader : (s.node i).state ≠ .leader) :
      Effect m s (.electionTimeout i disk)
        { node := i
          raft := (s.node i).enterCandidate.saved
          folded := s.folded i
          tasks := [.campaign i ((s.node i).currentTerm + 1)]
          events := [.candidacy i ((s.node i).currentTerm + 1)] }
  | campaign {i : Int} {term : Nat} (pending : .campaign i term ∈ s.tasks) :
      Effect m s (.campaign i term)
        { node := i
          raft := (s.node i).resetElectionTimerLocked
          folded := s.folded i
          finished := [.campaign i term]
          tasks := Cluster.campaignTasks i (s.node i).peers term }
  | sendRequestVote {i peer : Int} {term : Nat}
      (pending : .sendRequestVote i peer term ∈ s.tasks) :
      Effect m s (.sendRequestVote i peer term)
        { node := i
          raft := s.node i
          folded := s.folded i
          finished := [.sendRequestVote i peer term]
          packets := [.requestVote i peer ((s.node i).requestVoteRequest term)] }
  | refuseVote {src dst : Int} {req : RequestVoteRequest} {disk : Disk} {r : Raft}
      {resp : RequestVoteResponse} (inNet : .requestVote src dst req ∈ s.net)
      (yields : Yields (s.node dst) r) (refused : resp.voteGranted = false) :
      Effect m s (.receive (.requestVote src dst req) disk)
        { node := dst
          raft := r
          folded := s.folded dst
          delivered := [.requestVote src dst req]
          packets := [.requestVoteReply src dst req.term resp] }
  | grantVote {src dst : Int} {req : RequestVoteRequest} {disk : Disk} {r : Raft}
      (inNet : .requestVote src dst req ∈ s.net) (grants : Grants (s.node dst) req r) :
      Effect m s (.receive (.requestVote src dst req) disk)
        { node := dst
          raft := r
          folded := s.folded dst
          delivered := [.requestVote src dst req]
          packets := [.requestVoteReply src dst req.term
            { term := req.term, voteGranted := true }]
          events := [.granted dst req.term req] }
  | countVote {src dst : Int} {term : Nat} {resp : RequestVoteResponse} {disk : Disk}
      (inNet : .requestVoteReply src dst term resp ∈ s.net)
      (current : (s.node src).currentTerm = term)
      (candidate : (s.node src).state = .candidate) (granted : resp.voteGranted = true) :
      Effect m s (.receive (.requestVoteReply src dst term resp) disk)
        { node := src
          raft := { s.node src with votesReceived := (s.node src).votesReceived + 1 }
          folded := s.folded src
          tasks :=
            if (s.node src).votesReceived + 1 > (s.node src).peers.length / 2 then
              [.becomeLeader src term] else []
          delivered := [.requestVoteReply src dst term resp]
          events := [.counted src dst term] }
  | promote {i : Int} {term : Nat} (pending : .becomeLeader i term ∈ s.tasks)
      (candidate : (s.node i).state = .candidate) :
      Effect m s (.becomeLeader i term)
        { node := i
          raft := (s.node i).enterLeader
          folded := s.folded i
          finished := [.becomeLeader i term]
          events := [.promoted i (s.node i).currentTerm (s.whole i)] }
  | heartbeat {i : Int} (member : i ∈ m.ids) (leads : (s.node i).state = .leader) :
      Effect m s (.heartbeat i)
        { node := i
          raft := s.node i
          folded := s.folded i
          tasks := Cluster.fanOut i (s.node i) }
  | sendAppendEntries {i peer : Int} {term commitIdx : Nat} {req : AppendEntriesRequest}
      (pending : .sendAppendEntries i peer term commitIdx ∈ s.tasks)
      (sent : (s.node i).sendAppendEntries peer term commitIdx = .request req) :
      Effect m s (.sendAppendEntries i peer term commitIdx)
        { node := i
          raft := s.node i
          folded := s.folded i
          finished := [.sendAppendEntries i peer term commitIdx]
          packets := [.appendEntries i peer req] }
  | startInstall {i peer : Int} {term commitIdx : Nat}
      (pending : .sendAppendEntries i peer term commitIdx ∈ s.tasks)
      (sent : (s.node i).sendAppendEntries peer term commitIdx = .installSnapshot) :
      Effect m s (.sendAppendEntries i peer term commitIdx)
        { node := i
          raft := s.node i
          folded := s.folded i
          finished := [.sendAppendEntries i peer term commitIdx]
          tasks := [.sendInstallSnapshot i peer term] }
  | sendInstallSnapshot {i peer : Int} {term : Nat} {req : InstallSnapshotRequest}
      (pending : .sendInstallSnapshot i peer term ∈ s.tasks)
      (sent : (s.node i).sendInstallSnapshot peer term = some req) :
      Effect m s (.sendInstallSnapshot i peer term)
        { node := i
          raft := s.node i
          folded := s.folded i
          finished := [.sendInstallSnapshot i peer term]
          packets := [.installSnapshot i peer req (s.folded i)] }
  | replicate {i : Int} {cmd : Bytes} {disk : Disk} {entry : LogEntry} {r : Raft}
      (member : i ∈ m.ids) (leads : (s.node i).state = .leader)
      (fresh : entry = ⟨(s.node i).log.length + (s.node i).logBase + 1,
        (s.node i).currentTerm, cmd⟩)
      (stored : r = (saved { s.node i with log := (s.node i).log ++ [entry] }).updateCommitIndex) :
      Effect m s (.replicate i cmd disk)
        { node := i
          raft := r
          folded := s.folded i
          tasks := .awaitCommit i cmd entry.term entry.index :: Cluster.fanOut i r
          events := Cluster.commitEvent i (s.folded i) (s.node i) r ++
            [.acknowledged i entry.term entry.index, .appended i entry] }
  | refuseAppend {src dst : Int} {req : AppendEntriesRequest} {disk : Disk} {r : Raft}
      {term : Nat} (inNet : .appendEntries src dst req ∈ s.net)
      (yields : Yields (s.node dst) r) :
      Effect m s (.receive (.appendEntries src dst req) disk)
        { node := dst
          raft := r
          folded := s.folded dst
          delivered := [.appendEntries src dst req]
          packets := [.appendEntriesReply src dst req { term, success := false }] }
  /-- The log was changed but could not be stored: no reply is sent. -/
  | appendUnsaved {src dst : Int} {req : AppendEntriesRequest} {disk : Disk} {heard : Raft}
      {log : List LogEntry} (inNet : .appendEntries src dst req ∈ s.net)
      (yields : Yields (s.node dst) heard) (term : heard.currentTerm = req.term)
      (accepts : Accepts (s.node dst) req log true) :
      Effect m s (.receive (.appendEntries src dst req) disk)
        { node := dst
          raft := { heard with log }
          folded := s.folded dst
          delivered := [.appendEntries src dst req] }
  | append {src dst : Int} {req : AppendEntriesRequest} {disk : Disk} {heard r : Raft}
      {log : List LogEntry} {modified commitCh : Bool}
      (inNet : .appendEntries src dst req ∈ s.net)
      (yields : Yields (s.node dst) heard) (term : heard.currentTerm = req.term)
      (accepts : Accepts (s.node dst) req log modified)
      (stored : r =
        { heard with
          log
          persister := if modified then
            heard.persister.save heard.currentTerm heard.votedFor log else heard.persister
          commitIndex := max heard.commitIndex
            (min req.leaderCommit (req.prevLogIndex + req.entries.length))
          commitCh })
      (result : (s.node dst).appendEntries req disk =
        some (r, .ok { term := req.term, success := true })) :
      Effect m s (.receive (.appendEntries src dst req) disk)
        { node := dst
          raft := r
          folded := s.folded dst
          delivered := [.appendEntries src dst req]
          packets := [.appendEntriesReply src dst req
            { term := req.term, success := true }]
          events := [.acknowledged dst req.term
            (req.prevLogIndex + req.entries.length)] }
  | recordMatch {src dst : Int} {req : AppendEntriesRequest} {resp : AppendEntriesResponse}
      {disk : Disk} {r : Raft} (inNet : .appendEntriesReply src dst req resp ∈ s.net)
      (leads : (s.node src).state = .leader) (term : (s.node src).currentTerm = req.term)
      (success : resp.success = true)
      (updated : r = ((s.node src).updatePeer dst fun p =>
        let matchIndex := max p.matchIndex (req.prevLogIndex + req.entries.length)
        { p with matchIndex, nextIndex := matchIndex + 1 }).updateCommitIndex) :
      Effect m s (.receive (.appendEntriesReply src dst req resp) disk)
        { node := src
          raft := r
          folded := s.folded src
          delivered := [.appendEntriesReply src dst req resp]
          events := Cluster.commitEvent src (s.folded src) (s.node src) r }
  | retry {src dst : Int} {req : AppendEntriesRequest} {resp : AppendEntriesResponse}
      {disk : Disk} (inNet : .appendEntriesReply src dst req resp ∈ s.net)
      (leads : (s.node src).state = .leader) :
      Effect m s (.receive (.appendEntriesReply src dst req resp) disk)
        { node := src
          raft := (s.node src).updatePeer dst fun p =>
            { p with nextIndex := if p.nextIndex > 1 then p.nextIndex - 1 else p.nextIndex }
          folded := s.folded src
          tasks := [.sendAppendEntries src dst req.term req.leaderCommit]
          delivered := [.appendEntriesReply src dst req resp] }
  | answerInstall {src dst : Int} {req : InstallSnapshotRequest} {covered : List LogEntry}
      {disk : Disk} {r : Raft} {resp : InstallSnapshotResponse}
      (inNet : .installSnapshot src dst req covered ∈ s.net)
      (yields : Yields (s.node dst) r) :
      Effect m s (.receive (.installSnapshot src dst req covered) disk)
        { node := dst
          raft := r
          folded := s.folded dst
          delivered := [.installSnapshot src dst req covered]
          packets := [.installSnapshotReply src dst req resp] }
  | install {src dst : Int} {req : InstallSnapshotRequest} {covered : List LogEntry}
      {disk : Disk} {heard r : Raft} {persister : Persister} {applyCh : List ApplyMsg}
      {packets : List Packet} (inNet : .installSnapshot src dst req covered ∈ s.net)
      (installs : Installs (s.node dst) req heard)
      (installed : r = { heard.install req with persister, applyCh })
      (replies : ∀ packet ∈ packets, ∃ resp, packet = .installSnapshotReply src dst req resp) :
      Effect m s (.receive (.installSnapshot src dst req covered) disk)
        { node := dst
          raft := r
          folded := if req.lastIncludedIndex = (s.node dst).logBase then s.folded dst
            else covered
          delivered := [.installSnapshot src dst req covered]
          packets }
  | recordInstall {src dst : Int} {req : InstallSnapshotRequest}
      {resp : InstallSnapshotResponse} {disk : Disk} {r : Raft}
      (inNet : .installSnapshotReply src dst req resp ∈ s.net)
      (leads : (s.node src).state = .leader)
      (updated : r = ((s.node src).updatePeer dst fun p =>
        let matchIndex := max p.matchIndex req.lastIncludedIndex
        { p with matchIndex, nextIndex := matchIndex + 1 }).updateCommitIndex) :
      Effect m s (.receive (.installSnapshotReply src dst req resp) disk)
        { node := src
          raft := r
          folded := s.folded src
          delivered := [.installSnapshotReply src dst req resp]
          events := Cluster.commitEvent src (s.folded src) (s.node src) r }
  | compact {i : Int} {index : Nat} {data : Bytes} {disk : Disk} {entry : LogEntry}
      {r : Raft} {persister : Persister} (threshold : (s.node i).snapshotThreshold > 0)
      (above : (s.node i).logBase < index) (committed : index ≤ (s.node i).commitIndex)
      (found : entryAt (s.node i).log ((index : Int) - (s.node i).logBase - 1) = some entry)
      (compacted : r = { (s.node i).compact index data entry.term with persister }) :
      Effect m s (.snapshot i index data disk)
        { node := i
          raft := r
          folded := (s.whole i).take index }
  | restart {i : Int} (member : i ∈ m.ids) :
      Effect m s (.restart i)
        { node := i
          raft := (s.node i).restart
          folded := (s.folded i).take (s.node i).restart.logBase }

/-! ## Inversion of the step function -/

namespace Cluster

section Subperm

variable {α : Type*} [DecidableEq α] {a : α} {l : List α}

theorem cons_erase_subperm (member : a ∈ l) (new : List α) :
    ([a] ++ (new ++ l.erase a)).Subperm (new ++ l) := by
  have rotate : ([a] ++ (new ++ l.erase a)).Perm (new ++ (a :: l.erase a)) := by
    rw [List.singleton_append]
    exact List.perm_middle.symm
  exact (rotate.trans ((List.perm_cons_erase member).symm.append_left new)).subperm

end Subperm

variable {m : Membership} {s s' : Cluster}

/-- Delivery of a request to vote. -/
theorem effect_of_requestVote {src dst : Int} {req : RequestVoteRequest} {disk : Disk}
    (inNet : .requestVote src dst req ∈ s.net)
    (stepped : { s with net := s.net.erase (.requestVote src dst req) }.deliver disk
      (.requestVote src dst req) = some s') :
    ∃ o, Effect m s (.receive (.requestVote src dst req) disk) o ∧ Applies s o s' := by
  simp only [deliver] at stepped
  cases called : (s.node dst).requestVote req disk with
  | mk r reply =>
      rw [called] at stepped
      rcases Raft.requestVote_cases called with ⟨grants, rfl⟩ | ⟨yields, refused⟩
      · cases stepped
        exact ⟨_, .grantVote inNet grants, rfl, by simp [setNode],
          List.Subperm.refl _, cons_erase_subperm inNet [_], rfl⟩
      · cases reply with
        | error err =>
            cases stepped
            exact ⟨_, .yield yields, rfl, by simp [setNode],
              List.Subperm.refl _, cons_erase_subperm inNet [], rfl⟩
        | ok resp =>
            have no := refused resp rfl
            cases stepped
            exact ⟨_, .refuseVote inNet yields no, rfl, by simp [setNode],
              List.Subperm.refl _, cons_erase_subperm inNet [_], by simp [no]⟩

/-- Delivery of a vote. -/
theorem effect_of_requestVoteReply {src dst : Int} {term : Nat}
    {resp : RequestVoteResponse} {disk : Disk}
    (inNet : .requestVoteReply src dst term resp ∈ s.net)
    (stepped : { s with net := s.net.erase (.requestVoteReply src dst term resp) }.deliver
      disk (.requestVoteReply src dst term resp) = some s') :
    ∃ o, Effect m s (.receive (.requestVoteReply src dst term resp) disk) o ∧
      Applies s o s' := by
  simp only [deliver] at stepped
  cases called : (s.node src).handleRequestVoteResponse term resp with
  | mk r elected =>
      rw [called] at stepped
      rcases Raft.handleRequestVoteResponse_cases called with
        ⟨current, candidate, granted, rfl, rfl⟩ | ⟨yields, rfl, noMore⟩
      · cases stepped
        exact ⟨_, .countVote inNet current candidate granted, rfl, by simp [setNode],
          by simp [List.Subperm.refl], cons_erase_subperm inNet [], by simp⟩
      · cases stepped
        exact ⟨_, .yield yields, rfl, by simp [setNode], List.Subperm.refl _,
          cons_erase_subperm inNet [], by simp [Nat.not_lt.mpr noMore]⟩

/-- Delivery of a request to append. -/
theorem effect_of_appendEntries {src dst : Int} {req : AppendEntriesRequest} {disk : Disk}
    (inNet : .appendEntries src dst req ∈ s.net)
    (stepped : { s with net := s.net.erase (.appendEntries src dst req) }.deliver disk
      (.appendEntries src dst req) = some s') :
    ∃ o, Effect m s (.receive (.appendEntries src dst req) disk) o ∧ Applies s o s' := by
  simp only [deliver] at stepped
  cases called : (s.node dst).appendEntries req disk with
  | none =>
      rw [called] at stepped
      cases stepped
  | some result =>
      obtain ⟨r, reply⟩ := result
      rw [called] at stepped
      rcases Raft.appendEntries_cases called with ⟨yields, term, rfl⟩ |
        ⟨heard, log, modified, yields, term, accepts, ⟨rfl, rfl, err, rfl⟩ |
          ⟨commitCh, stored, rfl⟩⟩
      · cases stepped
        exact ⟨_, .refuseAppend inNet yields, rfl, by simp [setNode],
          List.Subperm.refl _, cons_erase_subperm inNet [_], rfl⟩
      · cases stepped
        exact ⟨_, .appendUnsaved inNet yields term accepts, rfl, by simp [setNode],
          List.Subperm.refl _, cons_erase_subperm inNet [], rfl⟩
      · cases stepped
        exact ⟨_, .append inNet yields term accepts stored called, rfl, by simp [setNode],
          List.Subperm.refl _, cons_erase_subperm inNet [_], rfl⟩

/-- Delivery of an answer to a request to append. -/
theorem effect_of_appendEntriesReply {src dst : Int} {req : AppendEntriesRequest}
    {resp : AppendEntriesResponse} {disk : Disk}
    (inNet : .appendEntriesReply src dst req resp ∈ s.net)
    (stepped : { s with net := s.net.erase (.appendEntriesReply src dst req resp) }.deliver
      disk (.appendEntriesReply src dst req resp) = some s') :
    ∃ o, Effect m s (.receive (.appendEntriesReply src dst req resp) disk) o ∧
      Applies s o s' := by
  simp only [deliver] at stepped
  cases called : (s.node src).handleAppendEntriesResponse dst req resp with
  | mk r retry =>
      rw [called] at stepped
      rcases Raft.handleAppendEntriesResponse_cases called with ⟨yields, rfl⟩ |
        ⟨leads, term, ⟨success, rfl, updated⟩ | ⟨rfl, rfl⟩⟩
      · cases stepped
        exact ⟨_, .yield yields, rfl, by simp [setNode], List.Subperm.refl _,
          cons_erase_subperm inNet [], by simp [commitEvent, yields.commitIndex]⟩
      · cases stepped
        exact ⟨_, .recordMatch inNet leads term success updated, rfl, by simp [setNode],
          by simp [List.Subperm.refl], cons_erase_subperm inNet [], rfl⟩
      · cases stepped
        exact ⟨_, .retry inNet leads, rfl, by simp [setNode],
          by simp [List.Subperm.refl], cons_erase_subperm inNet [],
          by simp [commitEvent, Raft.updatePeer]⟩

/-- Delivery of a snapshot. -/
theorem effect_of_installSnapshot {src dst : Int} {req : InstallSnapshotRequest}
    {covered : List LogEntry} {disk : Disk}
    (inNet : .installSnapshot src dst req covered ∈ s.net)
    (stepped : { s with net := s.net.erase (.installSnapshot src dst req covered) }.deliver
      disk (.installSnapshot src dst req covered) = some s') :
    ∃ o, Effect m s (.receive (.installSnapshot src dst req covered) disk) o ∧
      Applies s o s' := by
  simp only [deliver] at stepped
  cases called : (s.node dst).installSnapshot req disk with
  | mk r reply =>
      rw [called] at stepped
      simp only at stepped
      rcases Raft.installSnapshot_cases called with yields | ⟨heard, installs, outcome⟩
      · simp only [yields.logBase, ↓reduceIte] at stepped
        cases reply with
        | error err =>
            cases stepped
            exact ⟨_, .yield yields, rfl, by simp [setNode], List.Subperm.refl _,
              cons_erase_subperm inNet [], rfl⟩
        | ok resp =>
            cases stepped
            exact ⟨_, .answerInstall inNet yields, rfl, by simp [setNode],
              List.Subperm.refl _, cons_erase_subperm inNet [_], rfl⟩
      · -- all four results differ in storage, channel and reply only
        obtain ⟨persister, applyCh, installed⟩ :
            ∃ persister applyCh, r = { heard.install req with persister, applyCh } := by
          rcases outcome with ⟨rfl, -⟩ | ⟨rfl, -⟩ | ⟨rfl, -⟩ | ⟨rfl, -⟩ <;>
            exact ⟨_, _, rfl⟩
        have base : r.logBase = req.lastIncludedIndex := by
          rw [installed]
          rfl
        simp only [base] at stepped
        cases reply with
        | error err =>
            cases stepped
            refine ⟨_, .install inNet installs installed fun _ member =>
              absurd member List.not_mem_nil, ?_⟩
            split <;> exact ⟨rfl, by simp [setNode, setFolded], List.Subperm.refl _,
              cons_erase_subperm inNet [], rfl⟩
        | ok resp =>
            cases stepped
            refine ⟨_, .install inNet installs installed fun _ member =>
              ⟨resp, List.mem_singleton.mp member⟩, ?_⟩
            split <;> exact ⟨rfl, by simp [setNode, setFolded], List.Subperm.refl _,
              cons_erase_subperm inNet [_], rfl⟩

/-- Delivery of an answer to a snapshot. -/
theorem effect_of_installSnapshotReply {src dst : Int} {req : InstallSnapshotRequest}
    {resp : InstallSnapshotResponse} {disk : Disk}
    (inNet : .installSnapshotReply src dst req resp ∈ s.net)
    (stepped : { s with net := s.net.erase (.installSnapshotReply src dst req resp) }.deliver
      disk (.installSnapshotReply src dst req resp) = some s') :
    ∃ o, Effect m s (.receive (.installSnapshotReply src dst req resp) disk) o ∧
      Applies s o s' := by
  simp only [deliver] at stepped
  cases stepped
  rcases Raft.handleInstallSnapshotResponse_cases (s.node src) dst req resp with
    yields | ⟨leads, -, updated⟩
  · exact ⟨_, .yield yields, rfl, by simp [setNode], List.Subperm.refl _,
      cons_erase_subperm inNet [], by simp [commitEvent, yields.commitIndex]⟩
  · exact ⟨_, .recordInstall inNet leads updated, rfl, by simp [setNode],
      List.Subperm.refl _, cons_erase_subperm inNet [], rfl⟩

/-- The election timer fires. -/
theorem effect_of_electionTimeout {i : Int} {disk : Disk}
    (stepped : s.step m (.electionTimeout i disk) = some s') :
    ∃ o, Effect m s (.electionTimeout i disk) o ∧ Applies s o s' := by
  simp only [step] at stepped
  split at stepped
  next member =>
    cases called : (s.node i).becomeCandidate disk with
    | mk r campaign =>
        rw [called] at stepped
        rcases Raft.becomeCandidate_cases called with
          ⟨rfl, rfl⟩ | ⟨notLeader, ⟨rfl, rfl⟩ | ⟨rfl, rfl⟩⟩
        · cases stepped
          exact ⟨_, .yield (.refl _), rfl, by simp [setNode], List.Subperm.refl _,
            List.Subperm.refl _, by simp⟩
        · cases stepped
          exact ⟨_, .standUnsaved member notLeader, rfl, by simp [setNode],
            List.Subperm.refl _, List.Subperm.refl _, by simp [Raft.enterCandidate]⟩
        · cases stepped
          exact ⟨_, .stand member notLeader, rfl, by simp [setNode],
            List.Subperm.refl _, List.Subperm.refl _,
            by simp [Raft.enterCandidate, Raft.saved]⟩
  · cases stepped

/-- A campaign that counted a majority ends. -/
theorem effect_of_becomeLeader {i : Int} {term : Nat}
    (stepped : s.step m (.becomeLeader i term) = some s') :
    ∃ o, Effect m s (.becomeLeader i term) o ∧ Applies s o s' := by
  simp only [step] at stepped
  split at stepped
  next pending =>
    cases stepped
    rcases (s.node i).becomeLeader_cases with same | ⟨candidate, promoted⟩
    · exact ⟨_, .yield (i := i) (.refl _), .of_unchanged rfl rfl
        (by simp [setNode, same]) rfl (cons_erase_subperm pending [])
        (List.Subperm.refl _) (by simp [same])⟩
    · rw [promoted]
      exact ⟨_, .promote pending candidate, rfl, by simp [setNode],
        cons_erase_subperm pending [], List.Subperm.refl _,
        by simp [candidate, Raft.enterLeader]⟩
  · cases stepped

/-- A goroutine of `sendAppendEntries` starts. -/
theorem effect_of_sendAppendEntries {i peer : Int} {term commitIdx : Nat}
    (stepped : s.step m (.sendAppendEntries i peer term commitIdx) = some s') :
    ∃ o, Effect m s (.sendAppendEntries i peer term commitIdx) o ∧ Applies s o s' := by
  simp only [step] at stepped
  split at stepped
  next pending =>
    split at stepped
    · cases stepped
      exact ⟨_, .yield (i := i) (.refl _), .of_unchanged rfl rfl rfl rfl
        (cons_erase_subperm pending []) (List.Subperm.refl _) rfl⟩
    next sent =>
      cases stepped
      exact ⟨_, .startInstall pending sent, .of_unchanged rfl rfl rfl rfl
        (cons_erase_subperm pending [_]) (List.Subperm.refl _) rfl⟩
    next req sent =>
      cases stepped
      exact ⟨_, .sendAppendEntries pending sent, .of_unchanged rfl rfl rfl rfl
        (cons_erase_subperm pending []) (List.Subperm.refl _) rfl⟩
  · cases stepped

/-- A goroutine of `sendInstallSnapshot` starts. -/
theorem effect_of_sendInstallSnapshot {i peer : Int} {term : Nat}
    (stepped : s.step m (.sendInstallSnapshot i peer term) = some s') :
    ∃ o, Effect m s (.sendInstallSnapshot i peer term) o ∧ Applies s o s' := by
  simp only [step] at stepped
  split at stepped
  next pending =>
    split at stepped
    · cases stepped
      exact ⟨_, .yield (i := i) (.refl _), .of_unchanged rfl rfl rfl rfl
        (cons_erase_subperm pending []) (List.Subperm.refl _) rfl⟩
    next req sent =>
      cases stepped
      exact ⟨_, .sendInstallSnapshot pending sent, .of_unchanged rfl rfl rfl rfl
        (cons_erase_subperm pending []) (List.Subperm.refl _) rfl⟩
  · cases stepped

/-- A client hands a command to a node. -/
theorem effect_of_replicate {i : Int} {cmd : Bytes} {disk : Disk}
    (stepped : s.step m (.replicate i cmd disk) = some s') :
    ∃ o, Effect m s (.replicate i cmd disk) o ∧ Applies s o s' := by
  simp only [step] at stepped
  split at stepped
  next member =>
    cases called : (s.node i).replicateCommand cmd disk with
    | mk r result =>
        rw [called] at stepped
        rcases Raft.replicateCommand_cases called with
          ⟨rfl, err, rfl⟩ | ⟨leads, entry, fresh, rfl, stored⟩
        · cases stepped
          exact ⟨_, .yield (.refl _), rfl, by simp [setNode], List.Subperm.refl _,
            List.Subperm.refl _, rfl⟩
        · have term : r.currentTerm = entry.term := by
            rw [stored, Raft.updateCommitIndex_currentTerm, fresh]
            rfl
          have recorded : (⟨entry.index, entry.term, cmd⟩ : LogEntry) = entry := by
            rw [fresh]
          cases stepped
          exact ⟨_, .replicate member leads fresh stored, rfl, by simp [setNode],
            by simp [term, List.Subperm.refl], List.Subperm.refl _,
            by simp [term, recorded]⟩
  · cases stepped

/-- Delivery of any message. -/
theorem effect_of_receive {packet : Packet} {disk : Disk}
    (stepped : s.step m (.receive packet disk) = some s') :
    ∃ o, Effect m s (.receive packet disk) o ∧ Applies s o s' := by
  simp only [step] at stepped
  split at stepped
  next inNet =>
    cases packet with
    | requestVote src dst req => exact effect_of_requestVote inNet stepped
    | requestVoteReply src dst term resp =>
        exact effect_of_requestVoteReply inNet stepped
    | appendEntries src dst req => exact effect_of_appendEntries inNet stepped
    | appendEntriesReply src dst req resp =>
        exact effect_of_appendEntriesReply inNet stepped
    | installSnapshot src dst req covered =>
        exact effect_of_installSnapshot inNet stepped
    | installSnapshotReply src dst req resp =>
        exact effect_of_installSnapshotReply inNet stepped
  · cases stepped

/-- The apply loop takes an entry. -/
theorem effect_of_takeEntry {i : Int}
    (stepped : s.step m (.takeEntry i) = some s') :
    ∃ o, Effect m s (.takeEntry i) o ∧ Applies s o s' := by
  simp only [step] at stepped
  split at stepped
  · cases stepped
  · split at stepped
    · cases stepped
    next r msg taken =>
      obtain ⟨-, -, -, rfl, -⟩ := Raft.takeEntry_cases taken
      cases stepped
      exact ⟨_, .apply, rfl, by simp [setNode], List.Subperm.refl _,
        List.Subperm.refl _, rfl⟩

/-- The apply loop sends the entry it holds. -/
theorem effect_of_sendEntry {i : Int}
    (stepped : s.step m (.sendEntry i) = some s') :
    ∃ o, Effect m s (.sendEntry i) o ∧ Applies s o s' := by
  simp only [step] at stepped
  split at stepped
  · cases stepped
  · split at stepped
    · cases stepped
    next r sent =>
      rw [Raft.sendEntry_eq sent] at stepped
      cases stepped
      exact ⟨_, .apply, rfl, by simp [setNode], List.Subperm.refl _,
        List.Subperm.refl _, rfl⟩

/-- The state machine compacts the log of a node. -/
theorem effect_of_snapshot {i : Int} {index : Nat} {data : Bytes} {disk : Disk}
    (stepped : s.step m (.snapshot i index data disk) = some s') :
    ∃ o, Effect m s (.snapshot i index data disk) o ∧ Applies s o s' := by
  simp only [step] at stepped
  split at stepped
  next enabled =>
    cases called : (s.node i).snapshotUpTo index data disk with
    | mk r err =>
        rw [called] at stepped
        cases stepped
        rcases Raft.snapshotUpTo_cases called with rfl |
          ⟨above, committed, entry, found, -, outcome⟩
        · simp only [↓reduceIte]
          exact ⟨_, .yield (i := i) (.refl _), .of_unchanged rfl rfl
            (by simp [setNode]) rfl (List.Subperm.refl _) (List.Subperm.refl _) rfl⟩
        · obtain ⟨persister, compacted⟩ : ∃ persister,
              r = { (s.node i).compact index data entry.term with persister } := by
            rcases outcome with ⟨rfl, -⟩ | ⟨rfl, -⟩ | ⟨rfl, -⟩ <;> exact ⟨_, rfl⟩
          have base : r.logBase = index := by
            rw [compacted]
            rfl
          simp only [base, above.ne', ↓reduceIte]
          exact ⟨_, .compact enabled.2 above committed found compacted, rfl, rfl,
            List.Subperm.refl _, List.Subperm.refl _, rfl⟩
  · cases stepped

/-- Every accepted action has one of the effects. -/
theorem effect_of_step {a : Action} (stepped : s.step m a = some s') :
    ∃ o, Effect m s a o ∧ Applies s o s' := by
  cases a with
  | electionTimeout => exact effect_of_electionTimeout stepped
  | campaign i term =>
      simp only [step] at stepped
      split at stepped
      next pending =>
        cases stepped
        exact ⟨_, .campaign pending, rfl, by simp [setNode], cons_erase_subperm pending _,
          List.Subperm.refl _, rfl⟩
      · cases stepped
  | sendRequestVote i peer term =>
      simp only [step] at stepped
      split at stepped
      next pending =>
        cases stepped
        exact ⟨_, .sendRequestVote pending, .of_unchanged rfl rfl rfl rfl
          (cons_erase_subperm pending []) (List.Subperm.refl _) rfl⟩
      · cases stepped
  | becomeLeader => exact effect_of_becomeLeader stepped
  | heartbeat i =>
      simp only [step] at stepped
      split at stepped
      next enabled =>
        cases stepped
        exact ⟨_, .heartbeat enabled.1 enabled.2.1, .of_unchanged rfl rfl rfl rfl
          (List.Subperm.refl _) (List.Subperm.refl _) rfl⟩
      · cases stepped
  | sendAppendEntries => exact effect_of_sendAppendEntries stepped
  | sendInstallSnapshot => exact effect_of_sendInstallSnapshot stepped
  | replicate => exact effect_of_replicate stepped
  | poll i cmd term index =>
      simp only [step] at stepped
      split at stepped
      next pending =>
        cases stepped
        exact ⟨_, .yield (i := i) (.refl _), .of_unchanged rfl rfl rfl rfl
          (cons_erase_subperm pending.1 []) (List.Subperm.refl _) rfl⟩
      · cases stepped
  | giveUp i cmd term index =>
      simp only [step] at stepped
      split at stepped
      next pending =>
        cases stepped
        exact ⟨_, .yield (i := i) (.refl _), .of_unchanged rfl rfl rfl rfl
          (cons_erase_subperm pending []) (List.Subperm.refl _) rfl⟩
      · cases stepped
  | receive => exact effect_of_receive stepped
  | lose packet =>
      simp only [step] at stepped
      split at stepped
      next inNet =>
        cases stepped
        exact ⟨_, .yield (i := 0) (.refl _), .of_unchanged rfl rfl rfl rfl
          (List.Subperm.refl _) (cons_erase_subperm inNet []) rfl⟩
      · cases stepped
  | duplicate packet =>
      simp only [step] at stepped
      split at stepped
      next inNet =>
        cases stepped
        exact ⟨_, .duplicate inNet, .of_unchanged rfl rfl rfl rfl (List.Subperm.refl _)
          (List.Subperm.refl _) rfl⟩
      · cases stepped
  | takeEntry => exact effect_of_takeEntry stepped
  | sendEntry => exact effect_of_sendEntry stepped
  | consume i =>
      cases stepped
      exact ⟨_, .apply, rfl, by simp [setNode], List.Subperm.refl _, List.Subperm.refl _,
        rfl⟩
  | snapshot => exact effect_of_snapshot stepped
  | restart i =>
      simp only [step] at stepped
      split at stepped
      next member =>
        cases stepped
        exact ⟨_, .restart member, rfl, rfl, List.filter_sublist.subperm,
          List.filter_sublist.subperm, rfl⟩
      · cases stepped

end Cluster

/-! ## Roles -/

/-- The node keeps its role, or follows in a higher term. -/
structure Keeps (r r' : Raft) : Prop where
  term_le : r.currentTerm ≤ r'.currentTerm
  same : r'.currentTerm = r.currentTerm → r'.state = r.state
  higher : r.currentTerm < r'.currentTerm → r'.state = .follower

theorem Keeps.of_yields {r r' : Raft} (yields : r.Yields r') : Keeps r r' :=
  ⟨yields.term_le, fun same => (yields.same same).2.1, fun higher =>
    (yields.higher higher).2⟩

theorem Keeps.of_eq {r r' : Raft} (term : r'.currentTerm = r.currentTerm)
    (state : r'.state = r.state) : Keeps r r' :=
  ⟨term.ge, fun _ => state, fun higher => absurd term (Nat.ne_of_gt higher)⟩

/-- Whoever is not a follower afterwards keeps its role and its term. -/
theorem Keeps.of_ne_follower {r r' : Raft} (keeps : Keeps r r') (role : r'.state ≠ .follower) :
    r'.currentTerm = r.currentTerm ∧ r'.state = r.state := by
  rcases Nat.eq_or_lt_of_le keeps.term_le with same | higher
  · exact ⟨same.symm, keeps.same same.symm⟩
  · exact absurd (keeps.higher higher) role

/-- How the role of the acting node changes in one step. -/
inductive Turn (m : Membership) (s : Cluster) (a : Action) (o : Outcome) : Prop where
  | keeps (keeps : Keeps (s.node o.node) o.raft)
  | stands (member : o.node ∈ m.ids)
      (notLeader : (s.node o.node).state ≠ .leader)
      (raft : o.raft = (s.node o.node).enterCandidate ∨
        o.raft = (s.node o.node).enterCandidate.saved)
      (events : o.events = [.candidacy o.node ((s.node o.node).currentTerm + 1)])
  | leads (candidate : (s.node o.node).state = .candidate)
      (action : ∃ term, a = .becomeLeader o.node term)
      (raft : o.raft = (s.node o.node).enterLeader)
      (events : o.events =
        [.promoted o.node (s.node o.node).currentTerm (s.whole o.node)])
  | restarts (action : a = .restart o.node) (raft : o.raft = (s.node o.node).restart)

theorem turn_of_effect {m : Membership} {s : Cluster} {a : Action} {o : Outcome}
    (effect : Effect m s a o) : Turn m s a o := by
  cases effect with
  | yield yields => exact .keeps (.of_yields yields)
  | refuseVote _ yields => exact .keeps (.of_yields yields)
  | refuseAppend _ yields => exact .keeps (.of_yields yields)
  | answerInstall _ yields => exact .keeps (.of_yields yields)
  | campaign => exact .keeps (.of_yields (.resetElectionTimer _))
  | @grantVote src dst req disk r inNet grants =>
      have adopted := Keeps.of_yields (Raft.Yields.adoptTerm (s.node dst) req.term)
      refine .keeps ?_
      rw [grants.result]
      exact ⟨adopted.term_le, adopted.same, adopted.higher⟩
  | appendUnsaved _ yields =>
      have heard := Keeps.of_yields yields
      exact .keeps ⟨heard.term_le, heard.same, heard.higher⟩
  | append _ yields _ _ stored =>
      have heard := Keeps.of_yields yields
      refine .keeps ?_
      rw [stored]
      exact ⟨heard.term_le, heard.same, heard.higher⟩
  | install _ installs installed =>
      have heard := Keeps.of_yields installs.yields
      refine .keeps ?_
      rw [installed]
      exact ⟨heard.term_le, heard.same, heard.higher⟩
  | standUnsaved member notLeader => exact .stands member notLeader (.inl rfl) rfl
  | stand member notLeader => exact .stands member notLeader (.inr rfl) rfl
  | promote _ candidate => exact .leads candidate ⟨_, rfl⟩ rfl rfl
  | restart => exact .restarts rfl rfl
  | replicate _ _ _ stored =>
      exact .keeps (.of_eq (by simp [stored, Raft.saved]) (by simp [stored, Raft.saved]))
  | recordMatch _ _ _ _ updated =>
      exact .keeps (.of_eq (by simp [updated, Raft.updatePeer])
        (by simp [updated, Raft.updatePeer]))
  | recordInstall _ _ updated =>
      exact .keeps (.of_eq (by simp [updated, Raft.updatePeer])
        (by simp [updated, Raft.updatePeer]))
  | compact _ _ _ _ compacted =>
      exact .keeps (.of_eq (by simp [compacted, Raft.compact])
        (by simp [compacted, Raft.compact]))
  | apply => exact .keeps (.of_eq rfl rfl)
  | duplicate => exact .keeps (.of_eq rfl rfl)
  | sendRequestVote => exact .keeps (.of_eq rfl rfl)
  | countVote => exact .keeps (.of_eq rfl rfl)
  | heartbeat => exact .keeps (.of_eq rfl rfl)
  | sendAppendEntries => exact .keeps (.of_eq rfl rfl)
  | startInstall => exact .keeps (.of_eq rfl rfl)
  | sendInstallSnapshot => exact .keeps (.of_eq rfl rfl)
  | retry => exact .keeps (.of_eq rfl rfl)

namespace Cluster

variable {m : Membership} {s : Cluster} {a : Action} {o : Outcome}

/-! ## What steps add -/

@[simp] theorem mem_campaignTasks {task : Task} {i : Int} {peers : List Peer} {term : Nat} :
    task ∈ campaignTasks i peers term ↔
      if peers.length = 0 then task = .becomeLeader i term
      else ∃ p ∈ peers, .sendRequestVote i p.id term = task := by
  unfold campaignTasks
  split <;> simp

@[simp] theorem mem_fanOut {task : Task} {i : Int} {r : Raft} :
    task ∈ fanOut i r ↔
      ∃ p ∈ r.peers, .sendAppendEntries i p.id r.currentTerm r.commitIndex = task := by
  simp [fanOut]

@[simp] theorem mem_commitEvent {event : Event} {i : Int} {folded : List LogEntry}
    {r r' : Raft} :
    event ∈ commitEvent i folded r r' ↔ r.commitIndex < r'.commitIndex ∧
      event = .committed i r'.currentTerm r'.commitIndex (folded ++ r'.log) := by
  unfold commitEvent
  split <;> simp [*]

/-- The term of the acting node does not go down, unless it restarts. -/
theorem term_le_or_restart (effect : Effect m s a o) :
    (s.node o.node).currentTerm ≤ o.raft.currentTerm ∨
      a = .restart o.node ∧ o.raft = (s.node o.node).restart := by
  cases turn_of_effect effect with
  | keeps keeps => exact .inl keeps.term_le
  | stands _ _ raft =>
      left
      rcases raft with raft | raft <;> simp [raft, Raft.enterCandidate, Raft.saved]
  | leads _ _ raft => exact .inl (by simp [raft, Raft.enterLeader])
  | restarts action raft => exact .inr ⟨action, raft⟩

/-- A promotion is recorded when a candidate enters the leader role. -/
theorem promoted_of_effect (effect : Effect m s a o) {i : Int} {term : Nat}
    {log : List LogEntry} (recorded : .promoted i term log ∈ o.events) :
    i = o.node ∧ term = (s.node i).currentTerm ∧ log = s.whole i ∧
      (s.node i).state = .candidate ∧ o.events = [.promoted i term log] ∧
      ∃ counted, a = .becomeLeader i counted ∧ .becomeLeader i counted ∈ s.tasks := by
  cases effect with
  | promote pending candidate =>
      cases List.mem_singleton.mp recorded
      exact ⟨rfl, rfl, rfl, candidate, rfl, _, rfl, pending⟩
  | _ => simp at recorded

end Cluster

end DistribKV
