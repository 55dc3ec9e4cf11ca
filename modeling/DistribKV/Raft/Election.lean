import DistribKV.Raft.Types

/-!
# Elections

The functions of `raft/election.go`, together with the locked helpers of
`raft/raft.go` they call.  Each definition is one critical section of `r.mu`; a
source function that releases the lock in between is split at the release.
-/

namespace DistribKV

namespace Raft

/-- Arm the election timer; a no-op before `Start` has created it. -/
def resetElectionTimerLocked (r : Raft) : Raft :=
  { r with electionTimer := r.electionTimer.map fun _ => true }

/-- Absolute index and term of the last retained entry, `(0, 0)` for an empty
log. -/
def getLastLogInfoLocked (r : Raft) : Nat × Nat :=
  match r.log.getLast? with
  | none => (0, 0)
  | some last => (last.index, last.term)

/-- The node after its term, vote and log have been stored. -/
def saved (r : Raft) : Raft :=
  { r with persister := r.persister.save r.currentTerm r.votedFor r.log }

/-- Store term, vote and log; on a storage error nothing is stored. -/
def persist (r : Raft) (disk : Disk) : Except String Raft :=
  match disk.save with
  | some err => .error err
  | none => .ok r.saved

/-- Wake the apply loop; the signal is dropped when the slot is full. -/
def signalCommit (r : Raft) : Raft := { r with commitCh := true }

/-- Become follower in the given term, forgetting vote and leader. -/
def stepDown (r : Raft) (newTerm : Nat) : Raft :=
  { r with
    currentTerm := newTerm
    votedFor := -1
    state := .follower
    leaderId := -1
    votesReceived := 0 }

/-- Enter the candidate role in the next term, with a vote for oneself.  In the source
`currentTerm++` wraps around at `maxInt`. -/
def enterCandidate (r : Raft) : Raft :=
  { r with
    state := .candidate
    currentTerm := r.currentTerm + 1
    votedFor := r.serverId
    leaderId := -1
    votesReceived := 1 }

/-- First critical section of `becomeCandidate`.  The second component is the
term to campaign in, `none` when the call returns early. -/
def becomeCandidate (r : Raft) (disk : Disk) : Raft × Option Nat :=
  if r.shutdown then (r, none)
  else if r.state = .leader then (r, none)
  else
    match r.enterCandidate.persist disk with
    | .error _ => (r.enterCandidate, none)
    | .ok r => (r, some r.currentTerm)

/-- The request `sendRequestVote` builds.  The term is the campaign's; the log
position is read when the request is sent. -/
def requestVoteRequest (r : Raft) (term : Nat) : RequestVoteRequest where
  term := term
  candidateId := int32 r.serverId
  lastLogIndex := r.getLastLogInfoLocked.1
  lastLogTerm := r.getLastLogInfoLocked.2

/-- Critical section in which `sendRequestVote` handles a reply.  The flag says
that the call goes on to `becomeLeader`, after releasing the lock. -/
def handleRequestVoteResponse (r : Raft) (term : Nat)
    (resp : RequestVoteResponse) : Raft × Bool :=
  if r.currentTerm ≠ term ∨ r.state ≠ .candidate then (r, false)
  else if resp.term > r.currentTerm then (r.stepDown resp.term, false)
  else if resp.voteGranted then
    let r := { r with votesReceived := r.votesReceived + 1 }
    (r, decide (r.votesReceived > r.peers.length / 2))
  else (r, false)

/-- Whether the candidate's last entry is at least as up to date. -/
def logOk (r : Raft) (req : RequestVoteRequest) : Bool :=
  let (lastIdx, lastTerm) := r.getLastLogInfoLocked
  decide (req.lastLogTerm > lastTerm) ||
    (decide (req.lastLogTerm = lastTerm) && decide (req.lastLogIndex ≥ lastIdx))

/-- Adopt a higher term seen in a request, becoming a follower without a vote. -/
def adoptTerm (r : Raft) (term : Nat) : Raft :=
  if term > r.currentTerm then
    { r with currentTerm := term, votedFor := -1, state := .follower }
  else r

/-- The `RequestVote` handler.  The node's state is stored first and the vote
is assigned after that. -/
def requestVote (r : Raft) (req : RequestVoteRequest) (disk : Disk) :
    Raft × Except String RequestVoteResponse :=
  if req.term < r.currentTerm then
    (r, .ok { term := r.currentTerm, voteGranted := false })
  else
    let r := r.adoptTerm req.term
    if (r.votedFor = -1 ∨ r.votedFor = req.candidateId) ∧ r.logOk req then
      match r.persist disk with
      | .error err => (r, .error ("persist vote: " ++ err))
      | .ok r =>
          ({ r with votedFor := req.candidateId }.resetElectionTimerLocked,
            .ok { term := r.currentTerm, voteGranted := true })
    else (r, .ok { term := r.currentTerm, voteGranted := false })

/-- Enter the leader role, with fresh replication state for every peer and the
election timer stopped. -/
def enterLeader (r : Raft) : Raft :=
  let lastIdx := (r.log.getLast?.map (·.index)).getD 0
  { r with
    state := .leader
    leaderId := r.serverId
    peers := r.peers.map fun p => { p with nextIndex := lastIdx + 1, matchIndex := 0 }
    electionTimer := r.electionTimer.map fun _ => false }

/-- The critical section of `becomeLeader`: whoever is candidate when the lock
is taken is promoted in its current term. -/
def becomeLeader (r : Raft) : Raft :=
  if r.state ≠ .candidate ∨ r.shutdown then r else r.enterLeader

/-! ## What the handlers do -/

/-- A change that touches neither log nor storage nor the apply loop: the node
keeps role and vote, or it moves to a higher term as a follower without a vote. -/
structure Yields (r r' : Raft) : Prop where
  serverId : r'.serverId = r.serverId
  peers : r'.peers = r.peers
  log : r'.log = r.log
  logBase : r'.logBase = r.logBase
  snapshot : r'.snapshot = r.snapshot
  snapshotIndex : r'.snapshotIndex = r.snapshotIndex
  snapshotTerm : r'.snapshotTerm = r.snapshotTerm
  commitIndex : r'.commitIndex = r.commitIndex
  lastApplied : r'.lastApplied = r.lastApplied
  applyCh : r'.applyCh = r.applyCh
  persister : r'.persister = r.persister
  snapshotThreshold : r'.snapshotThreshold = r.snapshotThreshold
  term_le : r.currentTerm ≤ r'.currentTerm
  same : r'.currentTerm = r.currentTerm →
    r'.votedFor = r.votedFor ∧ r'.state = r.state ∧ r'.votesReceived = r.votesReceived
  higher : r.currentTerm < r'.currentTerm → r'.votedFor = -1 ∧ r'.state = .follower

namespace Yields

variable {r r' r'' : Raft}

/-- Only bookkeeping fields differ. -/
theorem bookkeeping (r : Raft) (leaderId : Int) (electionTimer : Option Bool)
    (commitCh : Bool) : Yields r { r with leaderId, electionTimer, commitCh } := by
  constructor <;> simp

theorem refl (r : Raft) : Yields r r := bookkeeping r r.leaderId r.electionTimer r.commitCh

theorem trans (first : Yields r r') (second : Yields r' r'') : Yields r r'' where
  serverId := second.serverId.trans first.serverId
  peers := second.peers.trans first.peers
  log := second.log.trans first.log
  logBase := second.logBase.trans first.logBase
  snapshot := second.snapshot.trans first.snapshot
  snapshotIndex := second.snapshotIndex.trans first.snapshotIndex
  snapshotTerm := second.snapshotTerm.trans first.snapshotTerm
  commitIndex := second.commitIndex.trans first.commitIndex
  lastApplied := second.lastApplied.trans first.lastApplied
  applyCh := second.applyCh.trans first.applyCh
  persister := second.persister.trans first.persister
  snapshotThreshold := second.snapshotThreshold.trans first.snapshotThreshold
  term_le := Nat.le_trans first.term_le second.term_le
  same equal := by
    have firstLe := first.term_le
    have secondLe := second.term_le
    obtain ⟨vote, state, votes⟩ := first.same (by omega)
    obtain ⟨vote', state', votes'⟩ := second.same (by omega)
    exact ⟨vote'.trans vote, state'.trans state, votes'.trans votes⟩
  higher lt := by
    rcases Nat.lt_or_ge r'.currentTerm r''.currentTerm with later | stays
    · exact second.higher later
    · have equal : r''.currentTerm = r'.currentTerm :=
        Nat.le_antisymm stays second.term_le
      obtain ⟨vote, state, -⟩ := second.same equal
      obtain ⟨vote', state'⟩ := first.higher (equal ▸ lt)
      exact ⟨vote.trans vote', state.trans state'⟩

theorem resetElectionTimer (r : Raft) : Yields r r.resetElectionTimerLocked :=
  bookkeeping r r.leaderId _ r.commitCh

theorem stepDown {term : Nat} (higher : r.currentTerm < term) :
    Yields r (r.stepDown term) := by
  constructor <;> simp [Raft.stepDown] <;> omega

theorem adoptTerm (r : Raft) (term : Nat) : Yields r (r.adoptTerm term) := by
  unfold Raft.adoptTerm
  split
  · constructor <;> simp <;> omega
  · exact .refl r

end Yields

@[simp] theorem adoptTerm_currentTerm (r : Raft) (term : Nat) :
    (r.adoptTerm term).currentTerm = max r.currentTerm term := by
  unfold adoptTerm
  split
  · simp only
    omega
  · omega

section Cases

variable {r r' : Raft} {disk : Disk}

/-- A call of `becomeCandidate` returns early, or stands for election with or
without having stored its candidacy. -/
theorem becomeCandidate_cases {campaign : Option Nat}
    (called : r.becomeCandidate disk = (r', campaign)) :
    (r' = r ∧ campaign = none) ∨
      r.state ≠ .leader ∧
        (r' = r.enterCandidate ∧ campaign = none ∨
          r' = r.enterCandidate.saved ∧ campaign = some (r.currentTerm + 1)) := by
  unfold becomeCandidate at called
  split at called
  · cases called
    exact .inl ⟨rfl, rfl⟩
  split at called
  · cases called
    exact .inl ⟨rfl, rfl⟩
  next notLeader =>
    refine .inr ⟨notLeader, ?_⟩
    unfold persist at called
    split at called
    next failed =>
      split at failed
      · cases called
        exact .inl ⟨rfl, rfl⟩
      · cases failed
    next stored =>
      split at stored
      · cases stored
      · cases stored
        cases called
        exact .inr ⟨rfl, rfl⟩

/-- What holds when `RequestVote` grants a vote, and the state it leaves. -/
structure Grants (r : Raft) (req : RequestVoteRequest) (r' : Raft) : Prop where
  current : r.currentTerm ≤ req.term
  free : (r.adoptTerm req.term).votedFor = -1 ∨
    (r.adoptTerm req.term).votedFor = req.candidateId
  upToDate : r.logOk req
  result : r' = { (r.adoptTerm req.term).saved with
    votedFor := req.candidateId }.resetElectionTimerLocked

theorem adoptTerm_getLastLogInfo (r : Raft) (term : Nat) :
    (r.adoptTerm term).getLastLogInfoLocked = r.getLastLogInfoLocked := by
  simp only [getLastLogInfoLocked, (Yields.adoptTerm r term).log]

/-- The paths through the `RequestVote` handler: the node and the answer at the end
of each. -/
inductive RequestVotePath (r : Raft) (req : RequestVoteRequest) (disk : Disk) :
    Raft → Except String RequestVoteResponse → Prop where
  | stale (lower : req.term < r.currentTerm) :
      RequestVotePath r req disk r (.ok { term := r.currentTerm, voteGranted := false })
  | refused (current : r.currentTerm ≤ req.term)
      (refuses : ¬ (((r.adoptTerm req.term).votedFor = -1 ∨
        (r.adoptTerm req.term).votedFor = req.candidateId) ∧ r.logOk req)) :
      RequestVotePath r req disk (r.adoptTerm req.term)
        (.ok { term := req.term, voteGranted := false })
  | unsaved {err : String} (current : r.currentTerm ≤ req.term)
      (failed : disk.save = some err) :
      RequestVotePath r req disk (r.adoptTerm req.term) (.error ("persist vote: " ++ err))
  | granted {r' : Raft} (grants : Grants r req r') :
      RequestVotePath r req disk r' (.ok { term := req.term, voteGranted := true })

theorem requestVote_path {req : RequestVoteRequest} {reply : Except String RequestVoteResponse}
    (called : r.requestVote req disk = (r', reply)) : RequestVotePath r req disk r' reply := by
  have sameLog : (r.adoptTerm req.term).logOk req = r.logOk req := by
    simp only [logOk, adoptTerm_getLastLogInfo]
  unfold requestVote at called
  split at called
  next lower =>
    cases called
    exact .stale lower
  next current =>
    have current : r.currentTerm ≤ req.term := Nat.not_lt.mp current
    have term : (r.adoptTerm req.term).currentTerm = req.term := by simp [current]
    simp only [persist, sameLog] at called
    split at called
    next free =>
      cases stored : disk.save with
      | some err =>
          simp only [stored] at called
          cases called
          exact .unsaved current stored
      | none =>
          simp only [stored, saved, term] at called
          cases called
          exact .granted ⟨current, free.1, free.2, by simp only [saved, term]⟩
    next refuses =>
      rw [term] at called
      cases called
      exact .refused current refuses

/-- `RequestVote` grants the vote, or leaves log and storage alone. -/
theorem requestVote_cases {req : RequestVoteRequest}
    {reply : Except String RequestVoteResponse}
    (called : r.requestVote req disk = (r', reply)) :
    (Grants r req r' ∧ reply = .ok { term := req.term, voteGranted := true }) ∨
      Yields r r' ∧ ∀ resp, reply = .ok resp → resp.voteGranted = false := by
  cases requestVote_path called with
  | stale lower =>
      refine .inr ⟨.refl r, ?_⟩
      rintro resp ⟨⟩
      rfl
  | refused current refuses =>
      refine .inr ⟨.adoptTerm r req.term, ?_⟩
      rintro resp ⟨⟩
      rfl
  | unsaved current failed => exact .inr ⟨.adoptTerm r req.term, by simp⟩
  | granted grants => exact .inl ⟨grants, rfl⟩

/-- The paths through the handling of a vote reply. -/
inductive RequestVoteReplyPath (r : Raft) (term : Nat) (resp : RequestVoteResponse) :
    Raft → Bool → Prop where
  | ignored : RequestVoteReplyPath r term resp r false
  | demoted (campaigns : r.state = .candidate) (current : r.currentTerm = term)
      (higher : r.currentTerm < resp.term) :
      RequestVoteReplyPath r term resp (r.stepDown resp.term) false
  | counted (campaigns : r.state = .candidate) (current : r.currentTerm = term)
      (granted : resp.voteGranted = true) :
      RequestVoteReplyPath r term resp { r with votesReceived := r.votesReceived + 1 }
        (decide (r.votesReceived + 1 > r.peers.length / 2))

theorem handleRequestVoteResponse_path {term : Nat} {resp : RequestVoteResponse}
    {elected : Bool} (called : r.handleRequestVoteResponse term resp = (r', elected)) :
    RequestVoteReplyPath r term resp r' elected := by
  unfold handleRequestVoteResponse at called
  split at called
  · cases called
    exact .ignored
  next active =>
    simp only [ne_eq, not_or, not_not] at active
    split at called
    next higher =>
      cases called
      exact .demoted active.2 active.1 higher
    next =>
      split at called
      next granted =>
        cases called
        exact .counted active.2 active.1 granted
      next =>
        cases called
        exact .ignored

/-- A vote reply is counted, or leaves log and storage alone. -/
theorem handleRequestVoteResponse_cases {term : Nat} {resp : RequestVoteResponse}
    {elected : Bool} (called : r.handleRequestVoteResponse term resp = (r', elected)) :
    (r.currentTerm = term ∧ r.state = .candidate ∧ resp.voteGranted = true ∧
        r' = { r with votesReceived := r.votesReceived + 1 } ∧
        elected = decide (r.votesReceived + 1 > r.peers.length / 2)) ∨
      Yields r r' ∧ elected = false ∧ r'.votesReceived ≤ r.votesReceived := by
  cases handleRequestVoteResponse_path called with
  | ignored => exact .inr ⟨.refl r, rfl, Nat.le_refl _⟩
  | demoted campaigns current higher =>
      exact .inr ⟨.stepDown higher, rfl, Nat.zero_le _⟩
  | counted campaigns current granted =>
      exact .inl ⟨current, campaigns, granted, rfl, rfl⟩

theorem becomeLeader_cases (r : Raft) :
    r.becomeLeader = r ∨
      r.state = .candidate ∧ r.becomeLeader = r.enterLeader := by
  unfold becomeLeader
  split
  · exact .inl rfl
  next active =>
    simp only [ne_eq, not_or, not_not] at active
    exact .inr ⟨active.1, rfl⟩

end Cases

end Raft

end DistribKV
