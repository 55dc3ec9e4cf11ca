import DistribKV.Consensus.Commitment
import DistribKV.Node.Model
import DistribKV.Raft.Votes

/-!
# Votes of one node

The first part is about votes across crashes: a node gives one vote per term as
long as no restart forgets one.  The second part is about the check that a
candidate's log is up to date, which compares retained logs: it is right exactly
for nodes that retain an entry or have no snapshot.
-/

namespace DistribKV

namespace Node

open Consensus

/-! ## One vote per term -/

/-- Every vote given is of an older term than the stored one, or is the stored
vote of the stored term. -/
def Remembers (n : Node) : Prop :=
  ∀ vote ∈ n.votes, vote.1 < n.raft.persister.term ∨
    vote.1 = n.raft.persister.term ∧ vote.2 = n.raft.persister.vote

instance (n : Node) : Decidable n.Remembers :=
  inferInstanceAs (Decidable (∀ vote ∈ n.votes, _ ∨ _ ∧ _))

/-- Candidates have ids, terms are not exhausted, and restarts forget no vote. -/
@[reducible] def KeepsVotes (n : Node) : NodeAction → Prop
  | .becomeCandidate _ => n.raft.currentTerm < maxInt
  | .requestVote req _ => req.candidateId ≠ -1
  | .restart => n.Remembers
  | _ => True

instance (n : Node) : DecidablePred n.KeepsVotes := NodeAction.decidable _

variable {cfg : Config} {n n' : Node} {a : NodeAction}

/-- The votes of a node are one per term, and the last one is in `votedFor`. -/
def OneVote (n : Node) : Prop :=
  n.raft.OneVote fun term candidate => (term, candidate) ∈ n.votes

theorem serverId_of_effect (effect : NodeEffect n a n') :
    n'.raft.serverId = n.raft.serverId := by
  cases effect with
  | yield yields => exact yields.serverId
  | stand stood => rcases stood with rfl | rfl <;> rfl
  | @grant req disk r grants =>
      rw [grants.result]
      exact (Raft.Yields.adoptTerm n.raft req.term).serverId
  | lead led => rw [led]
  | write _ stored => rw [stored]; rfl
  | append yields _ stored => simp [stored, yields.serverId]
  | compact _ _ _ compacted => simp [compacted, Raft.compact]
  | install _ installs installed => simp [installed, Raft.install, installs.yields.serverId]
  | take => rfl
  | send => rfl
  | consume => rfl
  | restart =>
      obtain ⟨_, _, _, _, _, _, _, restarted⟩ := n.raft.restart_eq
      rw [restarted]
      rfl

/-- A step that forgets no vote keeps votes unique. -/
theorem OneVote.of_effect (valid : n.raft.serverId ≠ -1) (oneVote : n.OneVote)
    (keepsVotes : n.KeepsVotes a) (effect : NodeEffect n a n') : n'.OneVote := by
  have cast : ∀ {vote : Nat × Int} {t : Nat} {c : Int}, (t, c) ∈ vote :: n.votes →
      (t, c) ∈ n.votes ∨ t = vote.1 ∧ c = vote.2 := by
    intro vote t c member
    rcases List.mem_cons.mp member with rfl | old
    · exact .inr ⟨rfl, rfl⟩
    · exact .inl old
  cases effect with
  | yield yields => exact Raft.OneVote.yields oneVote yields
  | stand stood =>
      refine Raft.OneVote.stands oneVote valid ?_ ?_ cast
      · rcases stood with rfl | rfl <;> rfl
      · rcases stood with rfl | rfl <;> rfl
  | grant grants => exact Raft.OneVote.grants oneVote grants keepsVotes cast
  | lead led => exact Raft.OneVote.congr oneVote (by rw [led]) (by rw [led]) fun given => given
  | write _ stored =>
      exact Raft.OneVote.congr oneVote (by rw [stored]; rfl) (by rw [stored]; rfl)
        fun given => given
  | append yields _ stored =>
      exact (Raft.OneVote.yields oneVote yields).congr (by rw [stored]) (by rw [stored])
        fun given => given
  | compact _ _ _ compacted =>
      exact Raft.OneVote.congr oneVote (by rw [compacted]; rfl) (by rw [compacted]; rfl)
        fun given => given
  | install _ installs installed =>
      exact (Raft.OneVote.yields oneVote installs.yields).congr (by rw [installed]; rfl)
        (by rw [installed]; rfl) fun given => given
  | take => exact Raft.OneVote.congr oneVote rfl rfl fun given => given
  | send => exact Raft.OneVote.congr oneVote rfl rfl fun given => given
  | consume => exact Raft.OneVote.congr oneVote rfl rfl fun given => given
  | restart => exact Raft.OneVote.restart oneVote fun given => keepsVotes _ given

/-- One vote per term across crashes: in every run of a node that stands for election
only below the greatest term and whose restarts find every vote given so far on the
disk, all votes it gives in one term, by replies or by standing itself, are for one
candidate. -/
theorem one_vote_per_term (valid : cfg.serverId ≠ -1)
    (run : Run step KeepsVotes (init cfg {}) n) {term : Nat} {candidate other : Int}
    (gave : (term, candidate) ∈ n.votes) (gaveOther : (term, other) ∈ n.votes) :
    candidate = other := by
  have invariant : n.raft.serverId ≠ -1 ∧ n.OneVote := by
    apply run.invariant
    · exact ⟨valid, .of_none fun _ _ given => by simp [init] at given⟩
    rintro t u a ⟨valid, oneVote⟩ keepsVotes stepped
    have effect := effect_of_step stepped
    exact ⟨serverId_of_effect effect ▸ valid, oneVote.of_effect valid keepsVotes effect⟩
  exact Raft.OneVote.unique invariant.2 gave gaveOther

/-- A node that votes, has its vote stored by a second request, restarts, and then
stands itself. -/
def storedVote : List NodeAction :=
  [.requestVote ⟨1, 1, 0, 0⟩ {}, .requestVote ⟨1, 1, 0, 0⟩ {}, .restart,
    .requestVote ⟨1, 2, 0, 0⟩ {}, .becomeCandidate {}]

/-- The vote counts across that restart. -/
theorem one_vote_per_term_stored :
    ∃ n, Run step KeepsVotes (init ⟨0, [1, 2], 0⟩ {}) n ∧ (1, 1) ∈ n.votes ∧
      ∀ other, (1, other) ∈ n.votes → 1 = other := by
  have reached : ∃ n, Run step KeepsVotes (init ⟨0, [1, 2], 0⟩ {}) n ∧ (1, 1) ∈ n.votes :=
    exists_run_of_perform storedVote _ (by decide +kernel)
  obtain ⟨n, run, gave⟩ := reached
  exact ⟨n, run, gave, fun other gaveOther =>
    one_vote_per_term (by decide) run gave gaveOther⟩

/-- A node that votes, restarts and votes again.  Every write to its disk
succeeds, but `RequestVote` stores the state before it assigns the vote. -/
def forgottenVote : List NodeAction :=
  [.requestVote ⟨1, 1, 0, 0⟩ {}, .restart, .requestVote ⟨1, 2, 0, 0⟩ {}]

/-- The node votes for two candidates in term `1`. -/
theorem restart_forgets_vote :
    ∃ n, Run step (fun _ _ => True) (init ⟨0, [1, 2], 0⟩ {}) n ∧
      (1, 1) ∈ n.votes ∧ (1, 2) ∈ n.votes :=
  exists_run_of_perform forgottenVote _ (by decide +kernel)

/-! ## The up-to-date check -/

/-- Term and index of the last entry of the whole log: the last retained entry,
or the one the snapshot ends with. -/
def wholeLogEnd (r : Raft) : Nat × Nat :=
  match r.log.getLast? with
  | some last => (last.term, last.index)
  | none => (r.snapshotTerm, r.snapshotIndex)

/-- Votes are granted only to candidates whose log ends at or after the end of
the whole log. -/
def GrantsToUpToDate (r : Raft) : Prop :=
  ∀ req disk r' resp, r.requestVote req disk = (r', .ok resp) → resp.voteGranted = true →
    UpTo (wholeLogEnd r) (req.lastLogTerm, req.lastLogIndex)

/-- Requests to vote carry the end of the whole log. -/
def SendsLogEnd (r : Raft) : Prop :=
  ∀ term, ((r.requestVoteRequest term).lastLogTerm, (r.requestVoteRequest term).lastLogIndex) =
    wholeLogEnd r

/-- Snapshots, in memory and on disk, are not empty. -/
structure SnapshotsReal (r : Raft) : Prop where
  memory : r.snapshotIndex = 0 → r.snapshotTerm = 0
  disk : ∀ file, r.persister.snapshotFile = some file → 0 < file.lastIncludedIndex

namespace SnapshotsReal

theorem congr {r r' : Raft} (real : SnapshotsReal r)
    (index : r'.snapshotIndex = r.snapshotIndex) (term : r'.snapshotTerm = r.snapshotTerm)
    (file : r'.persister.snapshotFile = r.persister.snapshotFile) : SnapshotsReal r' :=
  ⟨fun none => term.trans (real.memory (index.symm.trans none)), fun found stored =>
    real.disk found (file.symm.trans stored)⟩

theorem restart {r : Raft} (real : SnapshotsReal r) : SnapshotsReal r.restart := by
  refine ⟨fun none => ?_, fun file stored => real.disk file (by simpa using stored)⟩
  cases found : r.persister.snapshotFile with
  | none =>
      rw [Raft.restart, Raft.newRaft_of_noSnapshot _ found]
      rfl
  | some file =>
      cases blank : r.persister.hardState with
      | none =>
          rw [Raft.restart, Raft.newRaft_of_blank _ blank]
          rfl
      | some state =>
          have positive := real.disk file found
          rw [Raft.restart, Raft.newRaft_of_snapshot _ (by simp [blank]) found] at none
          simp only [Raft.start] at none
          omega

/-- Every step keeps snapshots real. -/
theorem of_effect (real : SnapshotsReal n.raft) (effect : NodeEffect n a n') :
    SnapshotsReal n'.raft := by
  cases effect with
  | yield yields =>
      exact real.congr yields.snapshotIndex yields.snapshotTerm (by rw [yields.persister])
  | stand stood =>
      refine real.congr ?_ ?_ ?_
      · rcases stood with rfl | rfl <;> rfl
      · rcases stood with rfl | rfl <;> rfl
      · rcases stood with rfl | rfl <;> rfl
  | @grant req disk r grants =>
      have adopted := Raft.Yields.adoptTerm n.raft req.term
      have sameFile := congrArg Persister.snapshotFile adopted.persister
      rw [grants.result]
      exact real.congr adopted.snapshotIndex adopted.snapshotTerm sameFile
  | lead led =>
      rw [led]
      exact real.congr rfl rfl rfl
  | write _ stored =>
      rw [stored]
      exact real.congr rfl rfl rfl
  | append yields _ stored file =>
      rw [stored]
      exact real.congr yields.snapshotIndex yields.snapshotTerm file
  | compact above _ _ compacted file =>
      rw [compacted]
      refine ⟨fun none => ?_, fun found stored => ?_⟩
      · simp only [Raft.compact] at none
        omega
      · rcases file with same | new
        · exact real.disk found (same.symm.trans stored)
        · cases new.symm.trans stored
          exact Nat.zero_lt_of_lt above
  | install _ installs installed file =>
      have positive := Nat.zero_lt_of_lt installs.fresh
      rw [installed]
      refine ⟨fun none => ?_, fun found stored => ?_⟩
      · simp only [Raft.install] at none
        omega
      · rcases file with same | new
        · exact real.disk found (same.symm.trans stored)
        · cases new.symm.trans stored
          exact positive
  | take => exact real.congr rfl rfl rfl
  | send => exact real.congr rfl rfl rfl
  | consume => exact real.congr rfl rfl rfl
  | restart => exact real.restart

end SnapshotsReal

/-- What the check and the requests compare is the end of the retained log. -/
theorem logOk_iff {r : Raft} {req : RequestVoteRequest} :
    r.logOk req ↔ UpTo (r.getLastLogInfoLocked.2, r.getLastLogInfoLocked.1)
      (req.lastLogTerm, req.lastLogIndex) := by
  simp only [Raft.logOk, UpTo, Bool.or_eq_true, Bool.and_eq_true, decide_eq_true_eq]
  omega

/-- The end of the retained log is that of the whole log, unless nothing is
retained after a snapshot. -/
theorem lastLogInfo_eq {r : Raft} (real : SnapshotsReal r)
    (retained : r.log ≠ [] ∨ r.snapshotIndex = 0) :
    (r.getLastLogInfoLocked.2, r.getLastLogInfoLocked.1) = wholeLogEnd r := by
  unfold Raft.getLastLogInfoLocked wholeLogEnd
  cases last : r.log.getLast? with
  | some entry => rfl
  | none =>
      have none := retained.resolve_left (not_not.mpr (List.getLast?_eq_none_iff.mp last))
      simp only [none, real.memory none]

/-- A node that retains nothing grants its vote in the next term to a candidate
with an empty log. -/
theorem grants_to_empty_log {r : Raft} (empty : r.log = []) (candidateId : Int) :
    ∃ r', r.requestVote ⟨r.currentTerm + 1, candidateId, 0, 0⟩ {} =
      (r', .ok { term := r.currentTerm + 1, voteGranted := true }) := by
  have current : ¬ r.currentTerm + 1 < r.currentTerm := by omega
  simp [Raft.requestVote, current, Raft.adoptTerm, Raft.logOk, Raft.getLastLogInfoLocked,
    empty, Raft.persist, Raft.saved]

/-- Whole logs are compared, and claimed, exactly in those states of a node that
retain an entry or have no snapshot. -/
theorem compares_whole_logs_iff (run : Run step (fun _ _ => True) (init cfg {}) n) :
    (GrantsToUpToDate n.raft ↔ n.raft.log ≠ [] ∨ n.raft.snapshotIndex = 0) ∧
      (SendsLogEnd n.raft ↔ n.raft.log ≠ [] ∨ n.raft.snapshotIndex = 0) := by
  have real : SnapshotsReal n.raft := by
    apply run.invariant
    · exact ⟨fun _ => rfl, fun _ stored => by cases stored⟩
    intro t u a real _ stepped
    exact real.of_effect (effect_of_step stepped)
  refine ⟨⟨fun grants => ?_, fun retained => ?_⟩, fun sends => ?_, fun retained term =>
    lastLogInfo_eq real retained⟩
  · by_contra bare
    push Not at bare
    obtain ⟨empty, snapshot⟩ := bare
    obtain ⟨r', called⟩ := grants_to_empty_log empty 0
    have upTo := grants _ _ _ _ called rfl
    simp only [wholeLogEnd, empty, List.getLast?_nil, UpTo] at upTo
    omega
  · intro req disk r' resp called granted
    rcases Raft.requestVote_cases called with ⟨grants, -⟩ | ⟨-, refused⟩
    · rw [← lastLogInfo_eq real retained]
      exact logOk_iff.mp grants.upToDate
    · rw [refused resp rfl] at granted
      cases granted
  · by_contra bare
    push Not at bare
    obtain ⟨empty, snapshot⟩ := bare
    have claim := sends 0
    simp only [Raft.requestVoteRequest, Raft.getLastLogInfoLocked, wholeLogEnd, empty,
      List.getLast?_nil, Prod.mk.injEq] at claim
    exact snapshot claim.2.symm

/-- A node that receives two entries and compacts the first. -/
def partCompacted : List NodeAction :=
  [.appendEntries ⟨1, 1, 0, 0, [⟨1, 1, [7]⟩, ⟨2, 1, [8]⟩], 2⟩ {}, .snapshot 1 [9] {}]

/-- A compacted node that retains an entry compares whole logs. -/
theorem compares_whole_logs_partCompacted :
    ∃ n, Run step (fun _ _ => True) (init ⟨0, [1, 2], 1⟩ {}) n ∧ n.raft.snapshotIndex = 1 ∧
      GrantsToUpToDate n.raft ∧ SendsLogEnd n.raft := by
  have reached : ∃ n, Run step (fun _ _ => True) (init ⟨0, [1, 2], 1⟩ {}) n ∧
      n.raft.snapshotIndex = 1 ∧ n.raft.log ≠ [] :=
    exists_run_of_perform partCompacted _ (by decide +kernel)
  obtain ⟨n, run, snapshot, retained⟩ := reached
  obtain ⟨grants, sends⟩ := compares_whole_logs_iff run
  exact ⟨n, run, snapshot, grants.mpr (.inl retained), sends.mpr (.inl retained)⟩

/-- A node that receives one entry and compacts it. -/
def fullyCompacted : List NodeAction :=
  [.appendEntries ⟨1, 1, 0, 0, [⟨1, 1, [7]⟩], 1⟩ {}, .snapshot 1 [9] {}]

/-- The node votes for a candidate with an empty log although its own whole log
has an entry of term `1`, and as a candidate it would claim an empty log. -/
theorem compacted_log_ignored :
    ∃ n, Run step (fun _ _ => True) (init ⟨0, [1, 2], 1⟩ {}) n ∧
      wholeLogEnd n.raft = (1, 1) ∧
      (n.raft.requestVote ⟨2, 2, 0, 0⟩ {}).2 = .ok { term := 2, voteGranted := true } ∧
      ¬ UpTo (wholeLogEnd n.raft) (0, 0) ∧
      n.raft.requestVoteRequest 2 = ⟨2, 0, 0, 0⟩ := by
  have reached : ∃ n, Run step (fun _ _ => True) (init ⟨0, [1, 2], 1⟩ {}) n ∧
      n.raft.log = [] ∧ n.raft.snapshotIndex = 1 ∧ n.raft.snapshotTerm = 1 ∧
      n.raft.currentTerm = 1 ∧ n.raft.serverId = 0 :=
    exists_run_of_perform fullyCompacted _ (by decide +kernel)
  obtain ⟨n, run, empty, index, term, current, id⟩ := reached
  have ends : wholeLogEnd n.raft = (1, 1) := by simp [wholeLogEnd, empty, index, term]
  obtain ⟨r', called⟩ := grants_to_empty_log empty 2
  rw [current] at called
  refine ⟨n, run, ends, by rw [called], by simp [ends, UpTo], ?_⟩
  simp [Raft.requestVoteRequest, Raft.getLastLogInfoLocked, empty, id, int32]

end Node

end DistribKV
