import DistribKV.Cluster.LeaderCompleteness
import DistribKV.Cluster.MatchIndex
import DistribKV.Consensus.Settlement

/-!
# Steps on whole logs

With compaction on, the retained log of a node is a part of its whole log, and nodes
exchange snapshots beside entries.  On whole logs a run without crashes looks simple
again: a step keeps the log of the acting node, writes one entry, or merges it with a
part of a book or with the entries a snapshot stands for.

A snapshot need not come from the leader of its term.  `sendInstallSnapshot` does not
check that the node still leads the term it was started in, so it may send, under an
old term, entries of a later one.
-/

namespace DistribKV

open Consensus

namespace Cluster

variable {m : Membership} {threshold : Int} {s s' : Cluster} {a : Action} {o : Outcome}

/-! ## Turns -/

/-- What a step in which nobody restarts does to the whole log of the acting node and
to the ledger. -/
inductive WholeTurn (s : Cluster) (a : Action) (o : Outcome) : Prop where
  | keeps (whole : o.folded ++ o.raft.log = s.whole o.node)
      (based : o.folded = s.folded o.node ∧ o.raft.logBase = (s.node o.node).logBase ∨
        (s.node o.node).logBase < (s.node o.node).commitIndex)
      (retained : ∀ entry ∈ o.raft.log, entry ∈ (s.node o.node).log)
      (ledger : ledgerOf (o.events ++ s.history) = s.ledger)
      (role : o.raft.state = .leader → (s.node o.node).state = .leader ∧
        o.raft.currentTerm = (s.node o.node).currentTerm)
  | elects (candidate : (s.node o.node).state = .candidate)
      (raft : o.raft = (s.node o.node).enterLeader) (folded : o.folded = s.folded o.node)
      (action : ∃ term, a = .becomeLeader o.node term)
      (recorded : .promoted o.node (s.node o.node).currentTerm (s.whole o.node) ∈ o.events)
      (ledger : ledgerOf (o.events ++ s.history) =
        s.ledger.elect (s.node o.node).currentTerm o.node (s.whole o.node))
  | writes {entry : LogEntry} (leads : (s.node o.node).state = .leader)
      (term : entry.term = (s.node o.node).currentTerm)
      (log : o.raft.log = (s.node o.node).log ++ [entry])
      (folded : o.folded = s.folded o.node)
      (sameTerm : o.raft.currentTerm = (s.node o.node).currentTerm)
      (ledger : ledgerOf (o.events ++ s.history) = s.ledger.write entry.term entry)
  | merges {src : Int} {req : AppendEntriesRequest}
      (inNet : .appendEntries src o.node req ∈ s.net)
      (current : (s.node o.node).currentTerm ≤ req.term)
      (sameTerm : o.raft.currentTerm = req.term)
      (folded : o.folded = s.folded o.node)
      (base : o.raft.logBase = (s.node o.node).logBase)
      (whole : o.folded ++ o.raft.log = merge (s.whole o.node)
        ((s.ledger.book req.term).take (req.prevLogIndex + req.entries.length)))
      (role : o.raft.state = .leader → (s.node o.node).state = .leader ∧
        o.raft.currentTerm = (s.node o.node).currentTerm)
      (ledger : ledgerOf (o.events ++ s.history) = s.ledger)
  | installs {src : Int} {req : InstallSnapshotRequest} {covered : List LogEntry}
      (inNet : .installSnapshot src o.node req covered ∈ s.net)
      (sameTerm : o.raft.currentTerm = req.term)
      (fresh : (s.node o.node).commitIndex < req.lastIncludedIndex)
      (folded : o.folded = covered)
      (base : o.raft.logBase = req.lastIncludedIndex)
      (whole : o.folded ++ o.raft.log = merge (s.whole o.node) covered)
      (retained : ∀ entry ∈ o.raft.log, entry ∈ (s.node o.node).log)
      (notLeader : o.raft.state ≠ .leader)
      (ledger : ledgerOf (o.events ++ s.history) = s.ledger)

/-- Whoever installs a snapshot is no leader afterwards: nobody sends one to itself. -/
theorem not_leader_of_snapshot (static : Static m threshold s) (matching : Matching s)
    {src dst : Int} {req : InstallSnapshotRequest} {covered : List LogEntry} {r : Raft}
    (inNet : .installSnapshot src dst req covered ∈ s.net) (sameTerm : r.currentTerm = req.term)
    (role : r.state = .leader → (s.node dst).state = .leader ∧
      r.currentTerm = (s.node dst).currentTerm) : r.state ≠ .leader := by
  intro leads
  obtain ⟨wasLeader, term⟩ := role leads
  have self := (matching.leading dst wasLeader).1
  rw [← term, sameTerm, (matching.snapshots inNet).1] at self
  exact (static.net _ inNet).2.2 (Option.some.inj self).symm

theorem wholeTurn_of_effect (matched : Matched m threshold s) (effect : Effect m s a o)
    (running : ∀ i, a ≠ .restart i) : WholeTurn s a o := by
  obtain ⟨static, shaped, matching⟩ := matched
  cases logTurn_of_effect effect with
  | keeps same folded ledger role =>
      refine .keeps (by rw [folded, same.log]; rfl) (.inl ⟨folded, same.logBase⟩) ?_ ledger role
      rw [same.log]
      exact fun _ held => held
  | elects candidate raft folded recorded ledger =>
      obtain ⟨-, -, -, -, -, counted, action, -⟩ := promoted_of_effect effect recorded
      exact .elects candidate raft folded ⟨counted, action⟩ recorded ledger
  | writes leads _ term same sameTerm _ _ folded ledger =>
      exact .writes leads term same.log folded sameTerm ledger
  | merges inNet accepts same sameTerm role folded ledger =>
      refine .merges inNet accepts.current sameTerm folded same.logBase ?_ role ledger
      rw [folded, same.log]
      exact matching.accepted shaped inNet accepts
  | @installs src req covered heard inNet installs same sameTerm role folded ledger =>
      obtain ⟨moves, merged⟩ := matching.installed shaped inNet installs
      rw [if_neg moves] at folded
      refine .installs inNet sameTerm installs.fresh folded same.logBase ?_ ?_
        (not_leader_of_snapshot static matching inNet sameTerm role) ledger
      · rw [folded, same.log, merged]
      · rw [same.log]
        exact fun _ held => List.mem_of_mem_filter held
  | compacts _ above committed _ same role folded ledger =>
      refine .keeps ?_ (.inr (above.trans_le committed)) ?_ ledger fun leads =>
        ⟨role.1 ▸ leads, role.2⟩
      · rw [folded, same.log]
        exact (shaped.node o.node).compact_whole above
      · rw [same.log]
        exact fun _ held => List.mem_of_mem_drop held
  | restarts action => exact absurd action (running _)

/-- What a step in which nobody restarts does to the commit index of the acting node. -/
inductive CommitMove (s : Cluster) (o : Outcome) : Prop where
  | keeps (same : o.raft.commitIndex = (s.node o.node).commitIndex)
  | counts {entry : LogEntry} (commits : o.raft.CommitsByMajority entry)
  | follows {src : Int} {req : AppendEntriesRequest} {log : List LogEntry} {modified : Bool}
      (inNet : .appendEntries src o.node req ∈ s.net)
      (accepts : (s.node o.node).Accepts req log modified) (sameLog : o.raft.log = log)
      (folded : o.folded = s.folded o.node) (base : o.raft.logBase = (s.node o.node).logBase)
      (sameTerm : o.raft.currentTerm = req.term)
      (commitIndex : o.raft.commitIndex = max (s.node o.node).commitIndex
        (min req.leaderCommit (req.prevLogIndex + req.entries.length)))
  | installs {src : Int} {req : InstallSnapshotRequest} {covered : List LogEntry}
      (inNet : .installSnapshot src o.node req covered ∈ s.net)
      (folded : o.folded = covered) (base : o.raft.logBase = req.lastIncludedIndex)
      (sameTerm : o.raft.currentTerm = req.term) (notLeader : o.raft.state ≠ .leader)
      (commitIndex : o.raft.commitIndex = req.lastIncludedIndex)

theorem commitMove_of_effect (matched : Matched m threshold s) (effect : Effect m s a o)
    (running : ∀ i, a ≠ .restart i) : CommitMove s o := by
  obtain ⟨static, shaped, matching⟩ := matched
  have counted : ∀ {r : Raft} {node : Int} {folded tasks delivered packets events},
      r.commitIndex = (s.node node).commitIndex →
      CommitMove s ⟨node, r.updateCommitIndex, folded, [], tasks, delivered, packets, events⟩ := by
    intro r node folded tasks delivered packets events same
    rcases r.updateCommitIndex_commits with kept | ⟨entry, commits⟩
    · exact .keeps (kept.trans same)
    · exact .counts commits
  cases effect with
  | yield yields => exact .keeps yields.commitIndex
  | refuseVote _ yields => exact .keeps yields.commitIndex
  | refuseAppend _ yields => exact .keeps yields.commitIndex
  | answerInstall _ yields => exact .keeps yields.commitIndex
  | appendUnsaved _ yields => exact .keeps yields.commitIndex
  | @grantVote src dst req disk r inNet grants =>
      refine .keeps ?_
      rw [grants.result]
      exact (Raft.Yields.adoptTerm (s.node dst) req.term).commitIndex
  | append inNet yields term accepts stored =>
      subst stored
      exact .follows inNet accepts rfl rfl yields.logBase term (by rw [← yields.commitIndex])
  | replicate _ _ _ stored => exact stored ▸ counted rfl
  | recordMatch _ _ _ _ updated => exact updated ▸ counted rfl
  | recordInstall _ _ updated => exact updated ▸ counted rfl
  | install inNet installs installed =>
      obtain ⟨moves, -⟩ := matching.installed shaped inNet installs
      subst installed
      refine .installs inNet (if_neg moves) rfl installs.term
        (not_leader_of_snapshot static matching inNet installs.term fun leads => ?_)
        (if_pos (installs.yields.commitIndex ▸ installs.fresh))
      obtain ⟨term, state⟩ :=
        (Keeps.of_yields installs.yields).of_ne_follower (leads.trans_ne (by decide))
      exact ⟨state ▸ leads, term⟩
  | compact _ _ _ _ compacted =>
      subst compacted
      exact .keeps rfl
  | restart => exact absurd rfl (running _)
  | _ => exact .keeps rfl

/-! ## Claims of candidates -/

/-- The position a voter compares is the end of its whole log, unless all of it has been
folded into the snapshot. -/
theorem endOf_whole (shaped : Shaped s) {i : Int} (compares : (s.node i).log ≠ []) :
    endOf LogEntry.term (s.whole i) =
      ((s.node i).getLastLogInfoLocked.2, (s.node i).getLastLogInfoLocked.1) := by
  have index := (shaped.aligned i).getLast_index
  cases last : (s.node i).log.getLast? with
  | none => exact absurd (List.getLast?_eq_none_iff.mp last) compares
  | some entry =>
      have lastWhole : (s.whole i).getLast? = some entry := by
        rw [whole, List.getLast?_append, last]
        rfl
      rw [lastWhole] at index
      simp only [Option.map_some, Option.getD_some, Nat.zero_add] at index
      simp [Raft.getLastLogInfoLocked, endOf, lastWhole, last, index]

/-- Then it is the end of the snapshot. -/
theorem endOf_folded (shaped : Shaped s) {i : Int} (folded : (s.node i).log = []) :
    UpTo (endOf LogEntry.term (s.whole i))
      ((s.node i).snapshotTerm, (s.node i).snapshotIndex) := by
  rw [whole, folded, List.append_nil, shaped.snapshotIndex i, ← shaped.based i]
  cases last : (s.folded i).getLast? with
  | none =>
      rw [List.getLast?_eq_none_iff.mp last]
      simp only [UpTo, endOf, List.getLast?_nil, Option.map_none, Option.getD_none,
        List.length_nil]
      omega
  | some entry =>
      refine .inr ⟨?_, le_rfl⟩
      simp [endOf, last, shaped.snapshotTerm i entry last]

/-- A candidate claims no more than it has. -/
theorem claimed_upTo (shaped : Shaped s) (i : Int) (term : Nat) :
    UpTo (claimed ((s.node i).requestVoteRequest term)) (endOf LogEntry.term (s.whole i)) := by
  by_cases empty : (s.node i).log = []
  · simp only [claimed, Raft.requestVoteRequest, Raft.getLastLogInfoLocked, empty,
      List.getLast?_nil, UpTo]
    omega
  · rw [endOf_whole shaped empty]
    exact .inr ⟨rfl, le_rfl⟩

/-- While `c` stands in the term of the request and nobody leads that term, the whole
log of `c` reaches at least as far as the request says. -/
def Supports (s : Cluster) (c : Int) (req : RequestVoteRequest) : Prop :=
  (s.node c).state = .candidate → (s.node c).currentTerm = req.term →
    s.ledger.leader req.term = none →
      UpTo (claimed req) (endOf LogEntry.term (s.whole c))

/-- Requests to vote and votes belong to candidacies and claim no more than the
candidate has. -/
structure Standing (s : Cluster) : Prop where
  campaigns : ∀ {i term}, .campaign i term ∈ s.tasks → .candidacy i term ∈ s.history
  asks : ∀ {i peer term}, .sendRequestVote i peer term ∈ s.tasks →
    .candidacy i term ∈ s.history
  requests : ∀ {src dst req}, .requestVote src dst req ∈ s.net →
    .candidacy src req.term ∈ s.history ∧ s.Supports src req
  granted : ∀ {q term req}, .granted q term req ∈ s.history → term = req.term ∧
    .candidacy req.candidateId req.term ∈ s.history ∧ s.Supports req.candidateId req

/-- A candidate that has been standing in an unled term since before the step has
changed neither its log nor its commit index in the step. -/
theorem whole_of_candidate (turn : WholeTurn s a o) (move : CommitMove s o)
    (matching : Matching s) (effect : Effect m s a o) {term : Nat}
    (bound : term ≤ (s.node o.node).currentTerm) (candidate : o.raft.state = .candidate)
    (standing : o.raft.currentTerm = term) (vacant : s.ledger.leader term = none) :
    (s.node o.node).state = .candidate ∧ (s.node o.node).currentTerm = term ∧
      o.folded ++ o.raft.log = s.whole o.node ∧
      o.raft.commitIndex = (s.node o.node).commitIndex := by
  have before : (s.node o.node).state = .candidate ∧
      (s.node o.node).currentTerm = term := by
    cases turn_of_effect effect with
    | keeps keeps =>
        have le := keeps.term_le
        rw [keeps.same (by omega)] at candidate
        exact ⟨candidate, by omega⟩
    | stands _ _ raft =>
        have next : o.raft.currentTerm = (s.node o.node).currentTerm + 1 := by
          rcases raft with raft | raft <;> simp [raft, Raft.enterCandidate, Raft.saved]
        omega
    | leads _ _ raft =>
        rw [raft] at candidate
        cases candidate
    | restarts _ raft =>
        rw [raft, Raft.restart_state] at candidate
        cases candidate
  -- requests and snapshots of the term would have a leader behind them
  have noRequest : ∀ {src req}, .appendEntries src o.node req ∈ s.net →
      o.raft.currentTerm ≠ req.term := by
    intro src req inNet same
    obtain ⟨led, -⟩ := matching.requests inNet
    rw [← same, standing, vacant] at led
    cases led
  have noSnapshot : ∀ {src req covered}, .installSnapshot src o.node req covered ∈ s.net →
      o.raft.currentTerm ≠ req.term := by
    intro src req covered inNet same
    have led := (matching.snapshots inNet).1
    rw [← same, standing, vacant] at led
    cases led
  refine ⟨before.1, before.2, ?_, ?_⟩
  · cases turn with
    | keeps whole => exact whole
    | elects _ raft =>
        rw [raft] at candidate
        cases candidate
    | writes leads =>
        rw [leads] at before
        cases before.1
    | merges inNet _ sameTerm => exact absurd sameTerm (noRequest inNet)
    | installs inNet sameTerm => exact absurd sameTerm (noSnapshot inNet)
  · cases move with
    | keeps same => exact same
    | counts commits =>
        rw [commits.leads] at candidate
        cases candidate
    | follows inNet _ _ _ _ sameTerm => exact absurd sameTerm (noRequest inNet)
    | installs inNet _ _ sameTerm => exact absurd sameTerm (noSnapshot inNet)

namespace Standing

theorem initial (m : Membership) (threshold : Int) : Standing (init m threshold) where
  campaigns pending := by simp [init] at pending
  asks pending := by simp [init] at pending
  requests inNet := by simp [init] at inNet
  granted member := by simp [init] at member

/-- A term that nobody leads after a step nobody led before it. -/
theorem vacant_before {g h : Ledger Int LogEntry} (extension : g.Extends h) {term : Nat}
    (vacant : h.leader term = none) : g.leader term = none := by
  by_contra led
  obtain ⟨j, leader⟩ := Option.ne_none_iff_exists'.mp led
  rw [extension.leader _ _ leader] at vacant
  cases vacant

/-- What a candidate has claimed stays true of it while it stands. -/
theorem supports_of_effect (turn : WholeTurn s a o) (move : CommitMove s o)
    (matching : Matching s) (voting : Voting s) (effect : Effect m s a o)
    (applies : Applies s o s') (extension : s.ledger.Extends s'.ledger) {c : Int}
    {req : RequestVoteRequest} (stood : .candidacy c req.term ∈ s.history)
    (supports : s.Supports c req) : s'.Supports c req := by
  intro candidate standing vacant
  have wasVacant := vacant_before extension vacant
  by_cases acts : c = o.node
  · subst acts
    rw [applies.node_self] at candidate standing
    obtain ⟨wasCandidate, wasStanding, same, -⟩ := whole_of_candidate turn move matching effect
      (voting.candidacy_le stood) candidate standing wasVacant
    rw [applies.whole_self, same]
    exact supports wasCandidate wasStanding wasVacant
  · rw [applies.node_of_ne acts] at candidate standing
    rw [applies.whole_of_ne acts]
    exact supports candidate standing wasVacant

theorem asks_of_effect (standing : Standing s) (effect : Effect m s a o) {i peer : Int}
    {term : Nat} (added : .sendRequestVote i peer term ∈ o.tasks) :
    .candidacy i term ∈ s.history := by
  cases effect with
  | campaign pending =>
      rw [mem_campaignTasks] at added
      split at added
      · cases added
      · obtain ⟨p, -, same⟩ := added
        cases same
        exact standing.campaigns pending
  | _ => simp at added

theorem requests_of_effect (shaped : Shaped s) (standing : Standing s)
    (effect : Effect m s a o) {src dst : Int} {req : RequestVoteRequest}
    (sent : .requestVote src dst req ∈ o.packets) :
    .candidacy src req.term ∈ s.history ∧ s.Supports src req := by
  cases effect with
  | duplicate inNet =>
      cases List.mem_singleton.mp sent
      exact standing.requests inNet
  | sendRequestVote pending =>
      cases List.mem_singleton.mp sent
      exact ⟨standing.asks pending, fun _ _ _ => claimed_upTo shaped src _⟩
  | install _ _ _ replies =>
      obtain ⟨_, impossible⟩ := replies _ sent
      cases impossible
  | _ => simp at sent

theorem granted_of_effect (voting : Voting s) (standing : Standing s)
    (effect : Effect m s a o) {q : Int} {term : Nat} {req : RequestVoteRequest}
    (recorded : .granted q term req ∈ o.events) :
    term = req.term ∧ .candidacy req.candidateId req.term ∈ s.history ∧
      s.Supports req.candidateId req := by
  cases effect with
  | grantVote inNet =>
      cases List.mem_singleton.mp recorded
      rw [voting.requests inNet]
      exact ⟨rfl, standing.requests inNet⟩
  | _ => simp at recorded

/-- Claims and candidacies stay in order in every step that extends the ledger. -/
theorem of_effect (turn : WholeTurn s a o) (move : CommitMove s o) (shaped : Shaped s)
    (matching : Matching s) (voting : Voting s) (standing : Standing s)
    (effect : Effect m s a o) (applies : Applies s o s')
    (extension : s.ledger.Extends s'.ledger) : Standing s' := by
  have supports : ∀ {c req}, .candidacy c req.term ∈ s.history → s.Supports c req →
      s'.Supports c req := fun stood supports =>
    supports_of_effect turn move matching voting effect applies extension stood supports
  refine ⟨fun pending => ?_, fun pending => ?_, fun inNet => ?_, fun member => ?_⟩
  · rcases applies.mem_tasks pending with new | old
    · exact applies.mem_history.mpr (.inl (Campaigning.campaigns_of_effect effect new))
    · exact applies.history_mono (standing.campaigns old)
  · rcases applies.mem_tasks pending with new | old
    · exact applies.history_mono (standing.asks_of_effect effect new)
    · exact applies.history_mono (standing.asks old)
  · obtain ⟨stood, described⟩ := (applies.mem_net inNet).elim
      (standing.requests_of_effect shaped effect) standing.requests
    exact ⟨applies.history_mono stood, supports stood described⟩
  · obtain ⟨term, stood, described⟩ := (applies.mem_history.mp member).elim
      (standing.granted_of_effect voting effect) standing.granted
    exact ⟨term, applies.history_mono stood, supports stood described⟩

end Standing

end Cluster

end DistribKV
