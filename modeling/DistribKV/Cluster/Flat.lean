import DistribKV.Cluster.LogMatching
import DistribKV.Consensus.Commitment

/-!
# Clusters that never compact

With a compaction threshold of zero no node ever has a snapshot, so the retained
log is the whole log.  This module says what a step then does to the log and to
the durable state of the acting node, and keeps track of what candidates claim
about their logs.
-/

namespace DistribKV

namespace Cluster

open Consensus

/-- Nothing has been compacted, and no snapshot is on its way. -/
structure Flat (s : Cluster) : Prop where
  folded : ∀ i, s.folded i = []
  logBase : ∀ i, (s.node i).logBase = 0
  snapshotFile : ∀ i, (s.node i).persister.snapshotFile = none
  tasks : ∀ {i peer term}, .sendInstallSnapshot i peer term ∉ s.tasks
  requests : ∀ {src dst req covered}, .installSnapshot src dst req covered ∉ s.net
  replies : ∀ {src dst req resp}, .installSnapshotReply src dst req resp ∉ s.net

theorem Flat.whole_eq {s : Cluster} (flat : Flat s) (i : Int) :
    s.whole i = (s.node i).log := by
  rw [whole, flat.folded, List.nil_append]

/-- What a transition of a node does to its durable state: nothing, or it stores
the state it ends in. -/
inductive Stores (r r' : Raft) : Prop where
  | kept (persister : r'.persister = r.persister)
  | saved (term : r'.persister.term = r'.currentTerm) (log : r'.persister.log = r'.log)
      (snapshotFile : r'.persister.snapshotFile = r.persister.snapshotFile)

theorem Stores.snapshotFile {r r' : Raft} (stores : Stores r r') :
    r'.persister.snapshotFile = r.persister.snapshotFile := by
  cases stores with
  | kept persister => rw [persister]
  | saved _ _ snapshotFile => exact snapshotFile

/-- What a step does to the log of the acting node and to the ledger. -/
inductive FlatTurn (s : Cluster) (a : Action) (o : Outcome) : Prop where
  | keeps (log : o.raft.log = (s.node o.node).log)
      (ledger : ledgerOf (o.events ++ s.history) = s.ledger)
      (role : o.raft.state = .leader → (s.node o.node).state = .leader ∧
        o.raft.currentTerm = (s.node o.node).currentTerm)
  | elects (candidate : (s.node o.node).state = .candidate)
      (raft : o.raft = (s.node o.node).enterLeader)
      (action : ∃ term, a = .becomeLeader o.node term)
      (recorded : .promoted o.node (s.node o.node).currentTerm (s.node o.node).log ∈ o.events)
      (ledger : ledgerOf (o.events ++ s.history) =
        s.ledger.elect (s.node o.node).currentTerm o.node (s.node o.node).log)
  | writes {entry : LogEntry} (leads : (s.node o.node).state = .leader)
      (index : entry.index = (s.node o.node).log.length + 1)
      (term : entry.term = (s.node o.node).currentTerm)
      (log : o.raft.log = (s.node o.node).log ++ [entry])
      (sameTerm : o.raft.currentTerm = (s.node o.node).currentTerm)
      (stored : o.raft.persister.term = o.raft.currentTerm ∧
        o.raft.persister.log = o.raft.log)
      (acknowledged : .acknowledged o.node entry.term entry.index ∈ o.events)
      (ledger : ledgerOf (o.events ++ s.history) = s.ledger.write entry.term entry)
  | merges {src : Int} {req : AppendEntriesRequest}
      (inNet : .appendEntries src o.node req ∈ s.net)
      (current : (s.node o.node).currentTerm ≤ req.term)
      (sameTerm : o.raft.currentTerm = req.term)
      (log : o.raft.log = merge (s.node o.node).log
        ((s.ledger.book req.term).take (req.prevLogIndex + req.entries.length)))
      (role : o.raft.state = .leader → (s.node o.node).state = .leader ∧
        o.raft.currentTerm = (s.node o.node).currentTerm)
      (ledger : ledgerOf (o.events ++ s.history) = s.ledger)
  | restarts (action : a = .restart o.node) (raft : o.raft = (s.node o.node).restart)
      (ledger : ledgerOf (o.events ++ s.history) = s.ledger)

variable {m : Membership} {s s' : Cluster} {a : Action} {o : Outcome}

/-- A term gets a leader only when the acting node is promoted in it. -/
theorem FlatTurn.new_leader (turn : FlatTurn s a o) {i : Int} {term : Nat}
    (led : (ledgerOf (o.events ++ s.history)).leader term = some i)
    (new : s.ledger.leader term ≠ some i) :
    i = o.node ∧ term = (s.node o.node).currentTerm ∧
      (s.node o.node).state = .candidate ∧
      (ledgerOf (o.events ++ s.history)).book term = o.raft.log ∧
      ∃ counted, a = .becomeLeader o.node counted := by
  cases turn with
  | keeps _ ledger => exact absurd (ledger ▸ led) new
  | merges _ _ _ _ _ ledger => exact absurd (ledger ▸ led) new
  | restarts _ _ ledger => exact absurd (ledger ▸ led) new
  | writes _ _ _ _ _ _ _ ledger => exact absurd (by rwa [ledger] at led) new
  | elects candidate raft action _ ledger =>
      rw [ledger] at led ⊢
      by_cases here : term = (s.node o.node).currentTerm
      · subst here
        rw [Ledger.elect_leader_self] at led
        rw [Ledger.elect_book_self, raft]
        exact ⟨(Option.some.inj led).symm, rfl, candidate, rfl, action⟩
      · rw [Ledger.elect_leader_of_ne _ here] at led
        exact absurd led new

namespace Flat

theorem initial (m : Membership) : Flat (init m 0) where
  folded _ := rfl
  logBase _ := rfl
  snapshotFile _ := rfl
  tasks := by simp [init]
  requests := by simp [init]
  replies := by simp [init]

theorem stores (static : Static m 0 s) (flat : Flat s) (effect : Effect m s a o) :
    Stores (s.node o.node) o.raft := by
  cases effect with
  | yield yields => exact .kept yields.persister
  | refuseVote _ yields => exact .kept yields.persister
  | refuseAppend _ yields => exact .kept yields.persister
  | answerInstall _ yields => exact .kept yields.persister
  | campaign => exact .kept rfl
  | appendUnsaved _ yields => exact .kept yields.persister
  | @grantVote src dst req disk r inNet grants =>
      have sameFile := congrArg Persister.snapshotFile
        (Raft.Yields.adoptTerm (s.node dst) req.term).persister
      rw [grants.result]
      exact .saved rfl rfl sameFile
  | @append src dst req disk heard r log modified commitCh inNet yields term accepts stored =>
      have sameFile := congrArg Persister.snapshotFile yields.persister
      subst stored
      cases modified with
      | false => exact .kept yields.persister
      | true => exact .saved rfl rfl sameFile
  | stand => exact .saved rfl rfl rfl
  | replicate _ _ _ stored =>
      exact .saved (by simp [stored, Raft.saved]) (by simp [stored, Raft.saved])
        (by simp [stored, Raft.saved])
  | recordMatch _ _ _ _ updated => exact .kept (by simp [updated, Raft.updatePeer])
  | recordInstall _ _ updated => exact .kept (by simp [updated, Raft.updatePeer])
  | restart => exact .kept (Raft.restart_persister _)
  | install inNet => exact absurd inNet flat.requests
  | compact threshold =>
      rw [static.threshold] at threshold
      exact absurd threshold (lt_irrefl _)
  | _ => exact .kept rfl

/-- An accepted request merges a part of the book of its term into the log. -/
theorem merged (shaped : Shaped s) (matching : Matching s) (flat : Flat s) {src i : Int}
    {req : AppendEntriesRequest} {log : List LogEntry} {modified : Bool}
    (inNet : .appendEntries src i req ∈ s.net)
    (accepts : (s.node i).Accepts req log modified) :
    log = merge (s.node i).log
      ((s.ledger.book req.term).take (req.prevLogIndex + req.entries.length)) := by
  have merged := matching.accepted shaped inNet accepts
  rwa [flat.folded, flat.whole_eq, List.nil_append] at merged

theorem turn (static : Static m 0 s) (shaped : Shaped s) (matching : Matching s)
    (flat : Flat s) (effect : Effect m s a o) : FlatTurn s a o := by
  have whole := flat.whole_eq o.node
  cases logTurn_of_effect effect with
  | keeps same _ ledger role => exact .keeps same.log ledger role
  | elects candidate raft _ recorded ledger =>
      rw [whole] at recorded ledger
      cases turn_of_effect effect with
      | leads _ action => exact .elects candidate raft action recorded ledger
      | keeps keeps =>
          have same := keeps.same (by rw [raft]; rfl)
          rw [raft, candidate] at same
          cases same
      | stands _ _ _ events => simp [events] at recorded
      | restarts _ restarted =>
          have state := congrArg Raft.state (raft.symm.trans restarted)
          simp [Raft.enterLeader] at state
  | writes leads index term same sameTerm stored acknowledged _ ledger =>
      rw [flat.logBase, Nat.zero_add] at index
      exact .writes leads index term same.log sameTerm stored acknowledged ledger
  | merges inNet accepts same sameTerm role _ ledger =>
      have merged := flat.merged shaped matching inNet accepts
      exact .merges inNet accepts.current sameTerm (same.log.trans merged) role ledger
  | installs inNet => exact absurd inNet flat.requests
  | compacts threshold =>
      rw [static.threshold] at threshold
      exact absurd threshold (lt_irrefl _)
  | restarts action raft _ ledger => exact .restarts action raft ledger

/-- A leader that retains its whole log never needs to send a snapshot. -/
theorem never_installs (flat : Flat s) {i peer : Int} {term commitIdx : Nat} :
    (s.node i).sendAppendEntries peer term commitIdx ≠ .installSnapshot := by
  intro sent
  unfold Raft.sendAppendEntries at sent
  rw [flat.logBase] at sent
  split at sent
  · cases sent
  · simp only [Nat.not_lt_zero, if_false] at sent
    split at sent <;> cases sent

theorem tasks_of_effect (flat : Flat s) (effect : Effect m s a o) {i peer : Int}
    {term : Nat} : .sendInstallSnapshot i peer term ∉ o.tasks := by
  intro added
  cases effect with
  | startInstall _ sent => exact flat.never_installs sent
  | _ => simp at added

theorem packets_of_effect (flat : Flat s) (effect : Effect m s a o) :
    (∀ {src dst req covered}, .installSnapshot src dst req covered ∉ o.packets) ∧
      ∀ {src dst req resp}, .installSnapshotReply src dst req resp ∉ o.packets := by
  cases effect with
  | duplicate inNet =>
      constructor
      · intro src dst req covered sent
        cases List.mem_singleton.mp sent
        exact flat.requests inNet
      · intro src dst req resp sent
        cases List.mem_singleton.mp sent
        exact flat.replies inNet
  | sendInstallSnapshot pending => exact absurd pending flat.tasks
  | answerInstall inNet => exact absurd inNet flat.requests
  | install inNet => exact absurd inNet flat.requests
  | _ => simp

/-- Without compaction a cluster stays flat. -/
theorem of_effect (static : Static m 0 s) (flat : Flat s) (effect : Effect m s a o)
    (applies : Applies s o s') : Flat s' := by
  have node : o.folded = [] ∧ o.raft.logBase = 0 := by
    cases logTurn_of_effect effect with
    | keeps same folded =>
        exact ⟨folded.trans (flat.folded _), same.logBase.trans (flat.logBase _)⟩
    | elects _ raft folded =>
        rw [raft]
        exact ⟨folded.trans (flat.folded _), flat.logBase _⟩
    | writes _ _ _ same _ _ _ folded =>
        exact ⟨folded.trans (flat.folded _), same.logBase.trans (flat.logBase _)⟩
    | merges _ _ same _ _ folded =>
        exact ⟨folded.trans (flat.folded _), same.logBase.trans (flat.logBase _)⟩
    | installs inNet => exact absurd inNet flat.requests
    | compacts threshold =>
        rw [static.threshold] at threshold
        exact absurd threshold (lt_irrefl _)
    | restarts _ raft folded =>
        rw [folded, raft, flat.folded, List.take_nil]
        refine ⟨rfl, ?_⟩
        rw [Raft.restart, Raft.newRaft_of_noSnapshot _ (flat.snapshotFile _)]
        rfl
  have stores := flat.stores static effect
  obtain ⟨requests, replies⟩ := flat.packets_of_effect effect
  refine ⟨fun i => ?_, fun i => ?_, fun i => ?_, fun pending => ?_, fun inNet => ?_,
    fun inNet => ?_⟩
  · by_cases acts : i = o.node
    · rw [acts, applies.folded_self]
      exact node.1
    · rw [applies.folded_of_ne acts]
      exact flat.folded i
  · by_cases acts : i = o.node
    · rw [acts, applies.node_self]
      exact node.2
    · rw [applies.node_of_ne acts]
      exact flat.logBase i
  · by_cases acts : i = o.node
    · rw [acts, applies.node_self]
      exact stores.snapshotFile.trans (flat.snapshotFile _)
    · rw [applies.node_of_ne acts]
      exact flat.snapshotFile i
  · rcases applies.mem_tasks pending with new | old
    · exact flat.tasks_of_effect effect new
    · exact flat.tasks old
  · rcases applies.mem_net inNet with new | old
    · exact requests new
    · exact flat.requests old
  · rcases applies.mem_net inNet with new | old
    · exact replies new
    · exact flat.replies old

end Flat

/-! ## What candidates claim -/

/-- The end of the log that a request to vote claims. -/
def claimed (req : RequestVoteRequest) : Nat × Nat := (req.lastLogTerm, req.lastLogIndex)

/-- The position a node compares in elections is the end of its log. -/
theorem endOf_log {r : Raft} (aligned : Aligned 0 r.log) :
    endOf LogEntry.term r.log = (r.getLastLogInfoLocked.2, r.getLastLogInfoLocked.1) := by
  have index := aligned.getLast_index
  unfold Raft.getLastLogInfoLocked endOf
  cases last : r.log.getLast? with
  | none =>
      rw [List.getLast?_eq_none_iff] at last
      simp [last]
  | some entry =>
      rw [last] at index
      simp only [Option.map_some, Option.getD_some, Nat.zero_add] at index ⊢
      rw [index]

theorem upTo_of_logOk {r : Raft} {req : RequestVoteRequest} (aligned : Aligned 0 r.log)
    (upToDate : r.logOk req) : UpTo (endOf LogEntry.term r.log) (claimed req) := by
  simp only [Raft.logOk, Bool.or_eq_true, Bool.and_eq_true, decide_eq_true_eq] at upToDate
  rw [endOf_log aligned]
  simp only [UpTo, claimed]
  omega

/-- While `c` stands in the term of the request and nobody leads that term, the
request describes the log of `c`. -/
def Claims (s : Cluster) (c : Int) (req : RequestVoteRequest) : Prop :=
  (s.node c).state = .candidate → (s.node c).currentTerm = req.term →
    s.ledger.leader req.term = none → endOf LogEntry.term (s.node c).log = claimed req

/-- Requests to vote and votes belong to candidacies and describe the
candidate's log. -/
structure Campaigning (s : Cluster) : Prop where
  campaigns : ∀ {i term}, .campaign i term ∈ s.tasks → .candidacy i term ∈ s.history
  asks : ∀ {i peer term}, .sendRequestVote i peer term ∈ s.tasks →
    .candidacy i term ∈ s.history
  requests : ∀ {src dst req}, .requestVote src dst req ∈ s.net →
    .candidacy src req.term ∈ s.history ∧ s.Claims src req
  granted : ∀ {q term req}, .granted q term req ∈ s.history → term = req.term ∧
    .candidacy req.candidateId req.term ∈ s.history ∧ s.Claims req.candidateId req

/-- Nobody has stood in a term above its own. -/
theorem Voting.candidacy_le (voting : Voting s) {i : Int} {term : Nat}
    (stood : .candidacy i term ∈ s.history) : term ≤ (s.node i).currentTerm :=
  (voting.oneVote i).bound (mem_votes.mpr (.inl ⟨stood, rfl⟩))

/-- A candidate that has been standing in an unled term since before the step
has not changed its log in the step. -/
theorem log_of_candidate (turn : FlatTurn s a o) (matching : Matching s)
    (effect : Effect m s a o) {term : Nat} (bound : term ≤ (s.node o.node).currentTerm)
    (candidate : o.raft.state = .candidate) (standing : o.raft.currentTerm = term)
    (vacant : s.ledger.leader term = none) :
    (s.node o.node).state = .candidate ∧ (s.node o.node).currentTerm = term ∧
      o.raft.log = (s.node o.node).log := by
  have before : (s.node o.node).state = .candidate ∧
      (s.node o.node).currentTerm = term := by
    cases turn_of_effect effect with
    | keeps keeps =>
        have le := keeps.term_le
        rw [keeps.same (by omega)] at candidate
        exact ⟨candidate, by omega⟩
    | stands _ _ raft =>
        have next : o.raft.currentTerm = (s.node o.node).currentTerm + 1 := by
          rcases raft with raft | raft <;> simp [raft, Raft.enterCandidate, Raft.saved]
        omega
    | leads _ _ raft =>
        rw [raft] at candidate
        cases candidate
    | restarts _ raft =>
        rw [raft, Raft.restart_state] at candidate
        cases candidate
  refine ⟨before.1, before.2, ?_⟩
  cases turn with
  | keeps log => exact log
  | elects _ raft =>
      rw [raft] at candidate
      cases candidate
  | writes leads =>
      rw [leads] at before
      cases before.1
  | merges inNet _ sameTerm =>
      obtain ⟨led, -⟩ := matching.requests inNet
      rw [← sameTerm, standing, vacant] at led
      cases led
  | restarts _ raft =>
      rw [raft, Raft.restart_state] at candidate
      cases candidate

namespace Campaigning

theorem initial (m : Membership) (threshold : Int) : Campaigning (init m threshold) where
  campaigns pending := by simp [init] at pending
  asks pending := by simp [init] at pending
  requests inNet := by simp [init] at inNet
  granted member := by simp [init] at member

/-- What a node has claimed stays true of it while it stands. -/
theorem claims_of_effect (static : Static m 0 s) (shaped : Shaped s)
    (matching : Matching s) (flat : Flat s) (voting : Voting s) (effect : Effect m s a o)
    (applies : Applies s o s') (extension : s.ledger.Extends s'.ledger) {c : Int}
    {req : RequestVoteRequest} (stood : .candidacy c req.term ∈ s.history)
    (claims : s.Claims c req) : s'.Claims c req := by
  intro candidate standing vacant
  have wasVacant : s.ledger.leader req.term = none := by
    by_contra led
    obtain ⟨j, leader⟩ := Option.ne_none_iff_exists'.mp led
    rw [extension.leader _ _ leader] at vacant
    cases vacant
  by_cases acts : c = o.node
  · subst acts
    rw [applies.node_self] at candidate standing ⊢
    obtain ⟨wasCandidate, wasStanding, log⟩ :=
      log_of_candidate (flat.turn static shaped matching effect) matching effect
        (voting.candidacy_le stood) candidate standing wasVacant
    rw [log]
    exact claims wasCandidate wasStanding wasVacant
  · rw [applies.node_of_ne acts] at candidate standing ⊢
    exact claims candidate standing wasVacant

theorem campaigns_of_effect (effect : Effect m s a o) {i : Int} {term : Nat}
    (added : .campaign i term ∈ o.tasks) : .candidacy i term ∈ o.events := by
  cases effect with
  | stand =>
      cases List.mem_singleton.mp added
      exact List.mem_singleton_self _
  | _ => simp at added

theorem asks_of_effect (campaigning : Campaigning s) (effect : Effect m s a o)
    {i peer : Int} {term : Nat} (added : .sendRequestVote i peer term ∈ o.tasks) :
    .candidacy i term ∈ s.history := by
  cases effect with
  | campaign pending =>
      rw [mem_campaignTasks] at added
      split at added
      · cases added
      · obtain ⟨p, -, same⟩ := added
        cases same
        exact campaigning.campaigns pending
  | _ => simp at added

theorem requests_of_effect (shaped : Shaped s) (flat : Flat s)
    (campaigning : Campaigning s) (effect : Effect m s a o) {src dst : Int}
    {req : RequestVoteRequest} (sent : .requestVote src dst req ∈ o.packets) :
    .candidacy src req.term ∈ s.history ∧ s.Claims src req := by
  cases effect with
  | duplicate inNet =>
      cases List.mem_singleton.mp sent
      exact campaigning.requests inNet
  | sendRequestVote pending =>
      cases List.mem_singleton.mp sent
      have aligned := flat.whole_eq src ▸ shaped.aligned src
      exact ⟨campaigning.asks pending, fun _ _ _ => endOf_log aligned⟩
  | install inNet => exact absurd inNet flat.requests
  | _ => simp at sent

theorem granted_of_effect (voting : Voting s) (campaigning : Campaigning s)
    (effect : Effect m s a o) {q : Int} {term : Nat} {req : RequestVoteRequest}
    (recorded : .granted q term req ∈ o.events) :
    term = req.term ∧ .candidacy req.candidateId req.term ∈ s.history ∧
      s.Claims req.candidateId req := by
  cases effect with
  | grantVote inNet =>
      cases List.mem_singleton.mp recorded
      rw [voting.requests inNet]
      exact ⟨rfl, campaigning.requests inNet⟩
  | _ => simp at recorded

/-- Claims and candidacies stay in order in every step that extends the ledger. -/
theorem of_effect (static : Static m 0 s) (shaped : Shaped s) (matching : Matching s)
    (flat : Flat s) (voting : Voting s) (campaigning : Campaigning s)
    (effect : Effect m s a o) (applies : Applies s o s')
    (extension : s.ledger.Extends s'.ledger) : Campaigning s' := by
  have claims : ∀ {c req}, .candidacy c req.term ∈ s.history → s.Claims c req →
      s'.Claims c req := fun stood claims =>
    claims_of_effect static shaped matching flat voting effect applies extension stood claims
  refine ⟨fun pending => ?_, fun pending => ?_, fun inNet => ?_, fun member => ?_⟩
  · rcases applies.mem_tasks pending with new | old
    · exact applies.mem_history.mpr (.inl (campaigns_of_effect effect new))
    · exact applies.history_mono (campaigning.campaigns old)
  · rcases applies.mem_tasks pending with new | old
    · exact applies.history_mono (campaigning.asks_of_effect effect new)
    · exact applies.history_mono (campaigning.asks old)
  · obtain ⟨stood, described⟩ := (applies.mem_net inNet).elim
      (campaigning.requests_of_effect shaped flat effect) campaigning.requests
    exact ⟨applies.history_mono stood, claims stood described⟩
  · obtain ⟨term, stood, described⟩ := (applies.mem_history.mp member).elim
      (campaigning.granted_of_effect voting effect) campaigning.granted
    exact ⟨term, applies.history_mono stood, claims stood described⟩

end Campaigning

end Cluster

end DistribKV
