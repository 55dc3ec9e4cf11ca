import DistribKV.Cluster.Static

/-!
# Logs and the ledger of a run

The history of a run determines a ledger: who was promoted in which term, and
the log of that leader with every entry it appended.  `LogTurn` says what a step
does to the log of the acting node and to the ledger, and `Shaped` is the part of
the log invariants that needs no assumption about elections: positions in the
whole log are absolute indices, compacted or not.
-/

namespace DistribKV

open Consensus

/-- The ledger recorded in a history, newest event first. -/
def ledgerOf : List Event → Ledger Int LogEntry
  | [] => .empty
  | .promoted i term log :: history => (ledgerOf history).elect term i log
  | .appended _ entry :: history => (ledgerOf history).write entry.term entry
  | _ :: history => ledgerOf history

namespace Cluster

/-- The ledger of the run so far. -/
def ledger (s : Cluster) : Ledger Int LogEntry := ledgerOf s.history

@[simp] theorem ledgerOf_commitEvent (i : Int) (folded : List LogEntry) (r r' : Raft)
    (history : List Event) :
    ledgerOf (commitEvent i folded r r' ++ history) = ledgerOf history := by
  unfold commitEvent
  split <;> rfl

/-- Facts about a node that concern neither log nor snapshot. -/
structure SameLog (r r' : Raft) : Prop where
  log : r'.log = r.log
  logBase : r'.logBase = r.logBase
  snapshotIndex : r'.snapshotIndex = r.snapshotIndex
  snapshotTerm : r'.snapshotTerm = r.snapshotTerm
  commitIndex : r.commitIndex ≤ r'.commitIndex

theorem SameLog.of_yields {r r' : Raft} (yields : r.Yields r') : SameLog r r' :=
  ⟨yields.log, yields.logBase, yields.snapshotIndex, yields.snapshotTerm,
    yields.commitIndex.ge⟩

theorem SameLog.updateCommitIndex (r : Raft) : SameLog r r.updateCommitIndex := by
  obtain ⟨_, _, le, moved⟩ := r.updateCommitIndex_eq
  rw [moved]
  exact ⟨rfl, rfl, rfl, rfl, le⟩

/-- A reply that the leader records. -/
theorem SameLog.recorded (r : Raft) (peerId : Int) (f : Peer → Peer) :
    SameLog r (r.updatePeer peerId f).updateCommitIndex := by
  have same := SameLog.updateCommitIndex (r.updatePeer peerId f)
  exact ⟨same.log, same.logBase, same.snapshotIndex, same.snapshotTerm, same.commitIndex⟩

/-- What a step does to the log of the acting node, its snapshot, and the
ledger. -/
inductive LogTurn (s : Cluster) (a : Action) (o : Outcome) : Prop where
  | keeps (same : SameLog (s.node o.node) o.raft) (folded : o.folded = s.folded o.node)
      (ledger : ledgerOf (o.events ++ s.history) = s.ledger)
      (role : o.raft.state = .leader → (s.node o.node).state = .leader ∧
        o.raft.currentTerm = (s.node o.node).currentTerm)
  | elects (candidate : (s.node o.node).state = .candidate)
      (raft : o.raft = (s.node o.node).enterLeader) (folded : o.folded = s.folded o.node)
      (recorded : .promoted o.node (s.node o.node).currentTerm (s.whole o.node) ∈ o.events)
      (ledger : ledgerOf (o.events ++ s.history) =
        s.ledger.elect (s.node o.node).currentTerm o.node (s.whole o.node))
  | writes {entry : LogEntry} (leads : (s.node o.node).state = .leader)
      (index : entry.index = (s.node o.node).logBase + (s.node o.node).log.length + 1)
      (term : entry.term = (s.node o.node).currentTerm)
      (same : SameLog { s.node o.node with log := (s.node o.node).log ++ [entry] } o.raft)
      (sameTerm : o.raft.currentTerm = (s.node o.node).currentTerm)
      (stored : o.raft.persister.term = o.raft.currentTerm ∧
        o.raft.persister.log = o.raft.log)
      (acknowledged : .acknowledged o.node entry.term entry.index ∈ o.events)
      (folded : o.folded = s.folded o.node)
      (ledger : ledgerOf (o.events ++ s.history) = s.ledger.write entry.term entry)
  | merges {src : Int} {req : AppendEntriesRequest} {log : List LogEntry} {modified : Bool}
      (inNet : .appendEntries src o.node req ∈ s.net)
      (accepts : (s.node o.node).Accepts req log modified)
      (same : SameLog { s.node o.node with log } o.raft)
      (sameTerm : o.raft.currentTerm = req.term)
      (role : o.raft.state = .leader → (s.node o.node).state = .leader ∧
        o.raft.currentTerm = (s.node o.node).currentTerm)
      (folded : o.folded = s.folded o.node)
      (ledger : ledgerOf (o.events ++ s.history) = s.ledger)
      (action : ∃ disk, a = .receive (.appendEntries src o.node req) disk)
  | installs {src : Int} {req : InstallSnapshotRequest} {covered : List LogEntry}
      {heard : Raft} (inNet : .installSnapshot src o.node req covered ∈ s.net)
      (installs : (s.node o.node).Installs req heard)
      (same : SameLog ((s.node o.node).install req) o.raft)
      (sameTerm : o.raft.currentTerm = req.term)
      (role : o.raft.state = .leader → (s.node o.node).state = .leader ∧
        o.raft.currentTerm = (s.node o.node).currentTerm)
      (folded : o.folded = if req.lastIncludedIndex = (s.node o.node).logBase then
        s.folded o.node else covered)
      (ledger : ledgerOf (o.events ++ s.history) = s.ledger)
      (action : ∃ disk, a = .receive (.installSnapshot src o.node req covered) disk)
  | compacts {index : Nat} {entry : LogEntry}
      (threshold : (s.node o.node).snapshotThreshold > 0)
      (above : (s.node o.node).logBase < index)
      (committed : index ≤ (s.node o.node).commitIndex)
      (found : entryAt (s.node o.node).log ((index : Int) - (s.node o.node).logBase - 1) =
        some entry)
      (same : SameLog ((s.node o.node).compact index [] entry.term) o.raft)
      (role : o.raft.state = (s.node o.node).state ∧
        o.raft.currentTerm = (s.node o.node).currentTerm)
      (folded : o.folded = (s.whole o.node).take index)
      (ledger : ledgerOf (o.events ++ s.history) = s.ledger)
  | restarts (action : a = .restart o.node) (raft : o.raft = (s.node o.node).restart)
      (folded : o.folded = (s.folded o.node).take (s.node o.node).restart.logBase)
      (ledger : ledgerOf (o.events ++ s.history) = s.ledger)

variable {m : Membership} {threshold : Int} {s s' : Cluster} {a : Action} {o : Outcome}

theorem logTurn_of_effect (effect : Effect m s a o) : LogTurn s a o := by
  have role : ∀ {r r' : Raft}, Keeps r r' → r'.state = .leader →
      r.state = .leader ∧ r'.currentTerm = r.currentTerm := by
    intro r r' keeps leads
    obtain ⟨term, state⟩ := keeps.of_ne_follower (by simp [leads])
    exact ⟨state ▸ leads, term⟩
  have quiet : ∀ {r : Raft}, (s.node o.node).Yields r →
      SameLog (s.node o.node) r ∧ (r.state = .leader → (s.node o.node).state = .leader ∧
        r.currentTerm = (s.node o.node).currentTerm) :=
    fun yields => ⟨.of_yields yields, role (.of_yields yields)⟩
  have rest : ∀ {r : Raft}, r = s.node o.node → SameLog (s.node o.node) r ∧
      (r.state = .leader → (s.node o.node).state = .leader ∧
        r.currentTerm = (s.node o.node).currentTerm) := by
    rintro r rfl
    exact quiet (.refl _)
  cases effect with
  | yield yields => exact .keeps (quiet yields).1 rfl rfl (quiet yields).2
  | refuseVote _ yields => exact .keeps (quiet yields).1 rfl rfl (quiet yields).2
  | refuseAppend _ yields => exact .keeps (quiet yields).1 rfl rfl (quiet yields).2
  | answerInstall _ yields => exact .keeps (quiet yields).1 rfl rfl (quiet yields).2
  | campaign =>
      exact .keeps (quiet (.resetElectionTimer _)).1 rfl rfl
        (quiet (.resetElectionTimer _)).2
  | @grantVote src dst req disk r inNet grants =>
      obtain ⟨-, -, -, result⟩ := grants
      subst result
      have adopted := quiet (Raft.Yields.adoptTerm (s.node dst) req.term)
      exact .keeps ⟨adopted.1.log, adopted.1.logBase, adopted.1.snapshotIndex,
        adopted.1.snapshotTerm, adopted.1.commitIndex⟩ rfl rfl adopted.2
  | standUnsaved => exact .keeps ⟨rfl, rfl, rfl, rfl, le_rfl⟩ rfl rfl (by rintro ⟨⟩)
  | stand => exact .keeps ⟨rfl, rfl, rfl, rfl, le_rfl⟩ rfl rfl (by rintro ⟨⟩)
  | promote _ candidate => exact .elects candidate rfl rfl (List.mem_singleton_self _) rfl
  | @replicate i cmd disk entry r member leads fresh stored =>
      subst stored
      have index : entry.index = (s.node i).logBase + (s.node i).log.length + 1 := by
        rw [fresh]
        simp only
        omega
      have term : entry.term = (s.node i).currentTerm := by rw [fresh]
      have same := SameLog.updateCommitIndex
        (Raft.saved { s.node i with log := (s.node i).log ++ [entry] })
      refine .writes leads index term
        ⟨same.log, same.logBase, same.snapshotIndex, same.snapshotTerm, same.commitIndex⟩
        (by simp [Raft.saved]) (by simp [Raft.saved]) (by simp) rfl ?_
      simp only [List.append_assoc, ledgerOf_commitEvent]
      rfl
  | appendUnsaved inNet yields term accepts =>
      have heard := quiet yields
      exact .merges inNet accepts ⟨rfl, heard.1.logBase, heard.1.snapshotIndex,
        heard.1.snapshotTerm, heard.1.commitIndex⟩ term heard.2 rfl rfl ⟨_, rfl⟩
  | append inNet yields term accepts stored =>
      subst stored
      have heard := quiet yields
      exact .merges inNet accepts ⟨rfl, heard.1.logBase, heard.1.snapshotIndex,
        heard.1.snapshotTerm, heard.1.commitIndex.trans (le_max_left _ _)⟩ term heard.2 rfl rfl
        ⟨_, rfl⟩
  | recordMatch _ leads _ _ updated =>
      subst updated
      exact .keeps (.recorded _ _ _) rfl (by simp [ledger]) fun _ =>
        ⟨leads, by simp [Raft.updatePeer]⟩
  | recordInstall _ leads updated =>
      subst updated
      exact .keeps (.recorded _ _ _) rfl (by simp [ledger]) fun _ =>
        ⟨leads, by simp [Raft.updatePeer]⟩
  | @install src dst req covered disk heard r persister applyCh packets inNet installs
      installed =>
      subst installed
      have yields := installs.yields
      refine .installs inNet installs ⟨?_, rfl, rfl, rfl, ?_⟩ installs.term
        (quiet yields).2 rfl rfl ⟨_, rfl⟩
      · simp [Raft.install, yields.log]
      · simp [Raft.install, yields.commitIndex]
  | compact threshold above committed found compacted =>
      subst compacted
      exact .compacts threshold above committed found ⟨rfl, rfl, rfl, rfl, le_rfl⟩ ⟨rfl, rfl⟩
        rfl rfl
  | restart => exact .restarts rfl rfl rfl rfl
  | apply => exact .keeps ⟨rfl, rfl, rfl, rfl, le_rfl⟩ rfl rfl fun leads => ⟨leads, rfl⟩
  | countVote => exact .keeps ⟨rfl, rfl, rfl, rfl, le_rfl⟩ rfl rfl fun leads => ⟨leads, rfl⟩
  | retry _ leads => exact .keeps ⟨rfl, rfl, rfl, rfl, le_rfl⟩ rfl rfl fun _ => ⟨leads, rfl⟩
  | duplicate => exact .keeps (rest rfl).1 rfl rfl (rest rfl).2
  | sendRequestVote => exact .keeps (rest rfl).1 rfl rfl (rest rfl).2
  | heartbeat => exact .keeps (rest rfl).1 rfl rfl (rest rfl).2
  | sendAppendEntries => exact .keeps (rest rfl).1 rfl rfl (rest rfl).2
  | startInstall => exact .keeps (rest rfl).1 rfl rfl (rest rfl).2
  | sendInstallSnapshot => exact .keeps (rest rfl).1 rfl rfl (rest rfl).2

/-- What a step does to the ledger. -/
theorem ledger_of_effect (effect : Effect m s a o) :
    ledgerOf (o.events ++ s.history) = s.ledger ∨
      (∃ entry : LogEntry, (s.node o.node).state = .leader ∧
        entry.term = (s.node o.node).currentTerm ∧
        ledgerOf (o.events ++ s.history) = s.ledger.write entry.term entry) ∨
      o.raft = (s.node o.node).enterLeader ∧
        .promoted o.node (s.node o.node).currentTerm (s.whole o.node) ∈ o.events ∧
        ledgerOf (o.events ++ s.history) =
          s.ledger.elect (s.node o.node).currentTerm o.node (s.whole o.node) := by
  cases logTurn_of_effect effect with
  | keeps _ _ same => exact .inl same
  | merges _ _ _ _ _ _ same => exact .inl same
  | installs _ _ _ _ _ _ same => exact .inl same
  | compacts _ _ _ _ _ _ _ same => exact .inl same
  | restarts _ _ _ same => exact .inl same
  | writes leads _ term _ _ _ _ _ written => exact .inr (.inl ⟨_, leads, term, written⟩)
  | elects _ raft _ recorded elected => exact .inr (.inr ⟨raft, recorded, elected⟩)

/-- Whoever leads a term after a step led it before, or is the node that takes the
lead in the step. -/
theorem leader_of_effect (effect : Effect m s a o) {i : Int} {term : Nat}
    (led : (ledgerOf (o.events ++ s.history)).leader term = some i) :
    s.ledger.leader term = some i ∨
      o.raft = (s.node o.node).enterLeader ∧ term = (s.node o.node).currentTerm := by
  rcases ledger_of_effect effect with same | ⟨entry, -, -, written⟩ | ⟨raft, -, elected⟩
  · exact .inl (same ▸ led)
  · rw [written, Ledger.write_leader] at led
    exact .inl led
  · by_cases here : term = (s.node o.node).currentTerm
    · exact .inr ⟨raft, here⟩
    · rw [elected, Ledger.elect_leader_of_ne _ here] at led
      exact .inl led

/-! ## The shape of logs -/

/-- Positions in whole logs are absolute indices, in nodes and in messages. -/
structure Shaped (s : Cluster) : Prop where
  based : ∀ i, (s.folded i).length = (s.node i).logBase
  aligned : ∀ i, Aligned 0 (s.whole i)
  committed : ∀ i, (s.node i).logBase ≤ (s.node i).commitIndex
  snapshotIndex : ∀ i, (s.node i).snapshotIndex = (s.node i).logBase
  snapshotTerm : ∀ i entry, (s.folded i).getLast? = some entry →
    entry.term = (s.node i).snapshotTerm
  requests : ∀ {src dst req}, .appendEntries src dst req ∈ s.net →
    Aligned req.prevLogIndex req.entries
  snapshots : ∀ {src dst req covered}, .installSnapshot src dst req covered ∈ s.net →
    Aligned 0 covered ∧ covered.length = req.lastIncludedIndex ∧
      ∀ entry, covered.getLast? = some entry → entry.term = req.lastIncludedTerm

/-- A node can restart without a snapshot from the log it has stored. -/
def Recoverable (r : Raft) : Prop :=
  r.persister.snapshotFile = none ∧ Aligned 0 r.persister.log

namespace Shaped

theorem initial (m : Membership) (threshold : Int) : Shaped (init m threshold) where
  based _ := rfl
  aligned _ := .nil
  committed _ := le_rfl
  snapshotIndex _ := rfl
  snapshotTerm _ _ found := by simp [init] at found
  requests inNet := by simp [init] at inNet
  snapshots inNet := by simp [init] at inNet

/-- The shape of one node. -/
structure NodeShape (r : Raft) (folded : List LogEntry) : Prop where
  based : folded.length = r.logBase
  aligned : Aligned 0 (folded ++ r.log)
  committed : r.logBase ≤ r.commitIndex
  snapshotIndex : r.snapshotIndex = r.logBase
  snapshotTerm : ∀ entry, folded.getLast? = some entry → entry.term = r.snapshotTerm

theorem NodeShape.sameLog {r r' : Raft} {folded : List LogEntry}
    (shape : NodeShape r folded) (same : SameLog r r') : NodeShape r' folded where
  based := shape.based.trans same.logBase.symm
  aligned := same.log ▸ shape.aligned
  committed := same.logBase ▸ shape.committed.trans same.commitIndex
  snapshotIndex := by rw [same.snapshotIndex, same.logBase, shape.snapshotIndex]
  snapshotTerm entry found := (shape.snapshotTerm entry found).trans same.snapshotTerm.symm

theorem NodeShape.retained {r : Raft} {folded : List LogEntry} (shape : NodeShape r folded) :
    Aligned r.logBase r.log := by
  have tail := (Aligned.append_iff.mp shape.aligned).2
  rwa [Nat.zero_add, shape.based] at tail

theorem NodeShape.withLog {r : Raft} {folded log : List LogEntry}
    (shape : NodeShape r folded) (aligned : Aligned r.logBase log) :
    NodeShape { r with log } folded where
  based := shape.based
  aligned := Aligned.append_iff.mpr
    ⟨(Aligned.append_iff.mp shape.aligned).1, by rwa [Nat.zero_add, shape.based]⟩
  committed := shape.committed
  snapshotIndex := shape.snapshotIndex
  snapshotTerm := shape.snapshotTerm

theorem node (shaped : Shaped s) (i : Int) : NodeShape (s.node i) (s.folded i) :=
  ⟨shaped.based i, shaped.aligned i, shaped.committed i, shaped.snapshotIndex i,
    shaped.snapshotTerm i⟩

theorem getElem?_of_entryAt {log : List LogEntry} {base index : Nat} {entry : LogEntry}
    (above : base < index) (found : entryAt log ((index : Int) - base - 1) = some entry) :
    log[index - base - 1]? = some entry := by
  have offset : (index : Int) - base - 1 = ((index - base - 1 : Nat) : Int) := by omega
  rwa [offset, entryAt_natCast] at found

/-- A compaction moves entries from the retained to the folded part. -/
theorem NodeShape.compact_whole {r : Raft} {folded : List LogEntry} {index : Nat}
    (shape : NodeShape r folded) (above : r.logBase < index) :
    (folded ++ r.log).take index ++ r.log.drop (index - r.logBase) = folded ++ r.log := by
  conv_rhs => rw [← List.take_append_drop index (folded ++ r.log)]
  congr 1
  rw [← Nat.add_sub_of_le above.le, drop_whole shape.based, Nat.add_sub_cancel_left]

/-- The acting node keeps its shape. -/
theorem node_of_effect (shaped : Shaped s) (effect : Effect m s a o)
    (recovers : ∀ i, a = .restart i → Recoverable (s.node i)) :
    NodeShape o.raft o.folded := by
  have shape := shaped.node o.node
  cases logTurn_of_effect effect with
  | keeps same folded => exact folded ▸ shape.sameLog same
  | elects _ raft folded =>
      rw [raft, folded]
      exact shape.sameLog ⟨rfl, rfl, rfl, rfl, le_rfl⟩
  | writes _ index _ same _ _ _ folded =>
      rw [folded]
      exact (shape.withLog (shape.retained.concat index)).sameLog same
  | merges inNet accepts same _ _ folded =>
      rw [folded]
      exact (shape.withLog (accepts.aligned shape.retained (shaped.requests inNet))).sameLog
        same
  | @installs src req covered heard inNet installs same sameTerm _ folded =>
      have above : (s.node o.node).logBase < req.lastIncludedIndex :=
        shape.committed.trans_lt installs.fresh
      rw [folded, if_neg above.ne']
      obtain ⟨aligned, length, lastTerm⟩ := shaped.snapshots inNet
      refine NodeShape.sameLog ⟨length, ?_, ?_, rfl, lastTerm⟩ same
      · refine Aligned.append_iff.mpr ⟨aligned, ?_⟩
        simp only [Raft.install]
        rw [shape.retained.filter_eq_drop above.le, Nat.zero_add, length]
        have tail := shape.retained.drop (req.lastIncludedIndex - (s.node o.node).logBase)
        rwa [Nat.add_sub_of_le above.le] at tail
      · simp only [Raft.install]
        split <;> omega
  | @compacts index entry _ above committed found same _ folded =>
      rw [folded]
      have inLog := getElem?_of_entryAt above found
      have bound := (List.getElem?_eq_some_iff.mp inLog).1
      have length : ((s.whole o.node).take index).length = index := by
        rw [List.length_take, whole, List.length_append, shape.based]
        omega
      refine NodeShape.sameLog ⟨length, ?_, committed, rfl, ?_⟩ same
      · simp only [Raft.compact]
        rw [whole, shape.compact_whole above]
        exact shape.aligned
      · intro last isLast
        simp only [Raft.compact]
        rw [List.getLast?_eq_getElem?, length, List.getElem?_take_of_lt (by omega), whole,
          show index - 1 = (s.node o.node).logBase +
            (index - (s.node o.node).logBase - 1) by omega,
          getElem?_whole shape.based, inLog] at isLast
        cases isLast
        rfl
  | restarts action raft folded =>
      obtain ⟨noSnapshot, aligned⟩ := recovers _ action
      have restarted : (s.node o.node).restart = _ :=
        congrArg Raft.start (Raft.newRaft_of_noSnapshot (s.node o.node).config noSnapshot)
      rw [folded, raft, restarted]
      exact ⟨by simp [Raft.start, Raft.fresh], by simpa [Raft.start, Raft.fresh] using aligned,
        Nat.zero_le _, rfl, by simp [Raft.start, Raft.fresh]⟩

theorem requests_of_effect (shaped : Shaped s) (effect : Effect m s a o) {src dst : Int}
    {req : AppendEntriesRequest} (sent : .appendEntries src dst req ∈ o.packets) :
    Aligned req.prevLogIndex req.entries := by
  cases effect with
  | duplicate inNet =>
      cases List.mem_singleton.mp sent
      exact shaped.requests inNet
  | sendAppendEntries _ outgoing =>
      cases List.mem_singleton.mp sent
      obtain ⟨-, -, nextIdx, positive, rfl⟩ := Raft.sendAppendEntries_request outgoing
      have slice := Raft.appendEntriesRequest_slice (shaped.based src) positive
        (s.node src).currentTerm 0
      have aligned := (shaped.aligned src).drop
        ((s.node src).appendEntriesRequest nextIdx (s.node src).currentTerm 0).prevLogIndex
      rw [Nat.zero_add] at aligned
      exact aligned.of_isPrefix slice.entries
  | install _ _ _ replies =>
      obtain ⟨_, impossible⟩ := replies _ sent
      cases impossible
  | _ => simp at sent

theorem snapshots_of_effect (shaped : Shaped s) (effect : Effect m s a o) {src dst : Int}
    {req : InstallSnapshotRequest} {covered : List LogEntry}
    (sent : .installSnapshot src dst req covered ∈ o.packets) :
    Aligned 0 covered ∧ covered.length = req.lastIncludedIndex ∧
      ∀ entry, covered.getLast? = some entry → entry.term = req.lastIncludedTerm := by
  cases effect with
  | duplicate inNet =>
      cases List.mem_singleton.mp sent
      exact shaped.snapshots inNet
  | sendInstallSnapshot _ outgoing =>
      cases List.mem_singleton.mp sent
      rw [Raft.sendInstallSnapshot_request outgoing]
      exact ⟨(shaped.aligned src).of_isPrefix (List.prefix_append _ _),
        (shaped.based src).trans (shaped.snapshotIndex src).symm, shaped.snapshotTerm src⟩
  | install _ _ _ replies =>
      obtain ⟨_, impossible⟩ := replies _ sent
      cases impossible
  | _ => simp at sent

/-- The shape survives every step whose restarts are recoverable. -/
theorem step (shaped : Shaped s)
    (recovers : ∀ i, a = .restart i → Recoverable (s.node i))
    (stepped : s.step m a = some s') : Shaped s' := by
  obtain ⟨o, effect, applies⟩ := effect_of_step stepped
  have nodes : ∀ i, NodeShape (s'.node i) (s'.folded i) := by
    intro i
    by_cases acts : i = o.node
    · rw [acts, applies.node_self, applies.folded_self]
      exact shaped.node_of_effect effect recovers
    · rw [applies.node_of_ne acts, applies.folded_of_ne acts]
      exact shaped.node i
  refine
    { based := fun i => (nodes i).based
      aligned := fun i => (nodes i).aligned
      committed := fun i => (nodes i).committed
      snapshotIndex := fun i => (nodes i).snapshotIndex
      snapshotTerm := fun i => (nodes i).snapshotTerm
      requests := fun inNet => ?_
      snapshots := fun inNet => ?_ }
  · rcases applies.mem_net inNet with new | old
    · exact shaped.requests_of_effect effect new
    · exact shaped.requests old
  · rcases applies.mem_net inNet with new | old
    · exact shaped.snapshots_of_effect effect new
    · exact shaped.snapshots old

end Shaped

end Cluster

end DistribKV
