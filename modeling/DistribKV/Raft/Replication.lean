import DistribKV.Raft.Election

/-!
# Log replication

The functions of `raft/replication.go` other than snapshot transfer: the
`AppendEntries` handler, the leader's request construction and reply handling,
the commit rule, and the append step of `ReplicateCommand`.
-/

namespace DistribKV

namespace Raft

/-! ## The follower side -/

/-- Rule 3, the consistency check at `prevLogIndex`. -/
def prevLogOk (r : Raft) (req : AppendEntriesRequest) : Bool :=
  if req.prevLogIndex > 0 then
    match entryAt r.log ((req.prevLogIndex : Int) - r.logBase - 1) with
    | none => false
    | some entry => decide (entry.term = req.prevLogTerm)
  else true

/-- Rule 4, the loop over the received entries; `i` counts the entries already
handled.  The accumulator is `r.log` and the `modified` flag.  The result is
`none` when an access is out of range. -/
def appendLoop (logBase prevLogIndex : Nat) :
    Nat → List LogEntry → List LogEntry × Bool → Option (List LogEntry × Bool)
  | _, [], acc => some acc
  | i, entry :: rest, (log, modified) =>
      let logIdx := prevLogIndex + i + 1
      let arrayIdx : Int := (logIdx : Int) - logBase - 1
      if arrayIdx < log.length then
        match entryAt log arrayIdx with
        | none => none
        | some held =>
            if held.term ≠ entry.term then
              appendLoop logBase prevLogIndex (i + 1) rest
                (log.take arrayIdx.toNat ++ [entry], true)
            else
              appendLoop logBase prevLogIndex (i + 1) rest (log, modified)
      else
        appendLoop logBase prevLogIndex (i + 1) rest (log ++ [entry], true)

/-- Rule 6, following the leader's commit index up to the last new entry. -/
def advanceCommit (r : Raft) (req : AppendEntriesRequest) : Raft :=
  let lastNewIndex := req.prevLogIndex + req.entries.length
  if req.leaderCommit > r.commitIndex then
    let newCommit :=
      if req.leaderCommit > lastNewIndex then lastNewIndex else req.leaderCommit
    if newCommit > r.commitIndex then
      { r with commitIndex := newCommit }.signalCommit
    else r
  else r

/-- Bookkeeping on a current-term message: record the sender unless leading,
and re-arm the election timer. -/
def hearFromLeader (r : Raft) (leaderId : Int) : Raft :=
  (if r.state ≠ .leader then { r with leaderId } else r).resetElectionTimerLocked

/-- The `AppendEntries` handler; `none` is a run-time panic. -/
def appendEntries (r : Raft) (req : AppendEntriesRequest) (disk : Disk) :
    Option (Raft × Except String AppendEntriesResponse) :=
  if req.term < r.currentTerm then
    some (r, .ok { term := r.currentTerm, success := false })
  else
    let r := (r.adoptTerm req.term).hearFromLeader req.leaderId
    if r.prevLogOk req then
      match appendLoop r.logBase req.prevLogIndex 0 req.entries (r.log, false) with
      | none => none
      | some (log, modified) =>
          let r := { r with log }
          if modified then
            match r.persist disk with
            | .error err => some (r, .error ("persist on append: " ++ err))
            | .ok r =>
                some (r.advanceCommit req, .ok { term := r.currentTerm, success := true })
          else
            some (r.advanceCommit req, .ok { term := r.currentTerm, success := true })
    else some (r, .ok { term := r.currentTerm, success := false })

/-! ## The leader side -/

/-- The replication state kept for a peer. -/
def peer? (r : Raft) (peerId : Int) : Option Peer := r.peers.find? (·.id == peerId)

/-- Update the replication state kept for a peer. -/
def updatePeer (r : Raft) (peerId : Int) (f : Peer → Peer) : Raft :=
  { r with peers := r.peers.map fun p => if p.id = peerId then f p else p }

/-- The loop collecting entries from the absolute indices it is given; it
breaks at the first index outside the retained log. -/
def collectEntries (log : List LogEntry) (logBase : Nat) : List Nat → List LogEntry
  | [] => []
  | i :: rest =>
      match entryAt log ((i : Int) - logBase - 1) with
      | none => []
      | some entry => entry :: collectEntries log logBase rest

/-- What one call of `sendAppendEntries` sends. -/
inductive Outgoing where
  | nothing
  | installSnapshot
  | request (req : AppendEntriesRequest)
  deriving DecidableEq, Repr

/-- The request described by a `nextIndex` at or after the snapshot point.  When
the previous entry is not retained the call starts over from index `1`. -/
def appendEntriesRequest (r : Raft) (nextIdx term commitIdx : Nat) :
    AppendEntriesRequest :=
  let prevLogIdx := nextIdx - 1
  let (prevLogIdx, prevLogTerm, nextIdx) :=
    if prevLogIdx > 0 then
      match entryAt r.log ((prevLogIdx : Int) - r.logBase - 1) with
      | some entry => (prevLogIdx, entry.term, nextIdx)
      | none => (0, 0, 1)
    else (prevLogIdx, 0, nextIdx)
  { term
    leaderId := int32 r.serverId
    prevLogIndex := prevLogIdx
    prevLogTerm
    -- `for i := nextIdx; i <= len(r.log); i++`
    entries := collectEntries r.log r.logBase
      (List.range' nextIdx (r.log.length + 1 - nextIdx))
    leaderCommit := commitIdx }

/-- The critical section in which `sendAppendEntries` decides what to send. -/
def sendAppendEntries (r : Raft) (peerId : Int) (term commitIdx : Nat) : Outgoing :=
  match r.peer? peerId with
  | none => .nothing
  | some peer =>
      if r.state ≠ .leader ∨ r.currentTerm ≠ term ∨ r.shutdown then .nothing
      else
        let nextIdx := if peer.nextIndex < 1 then 1 else peer.nextIndex
        if nextIdx - 1 < r.logBase then .installSnapshot
        else .request (r.appendEntriesRequest nextIdx term commitIdx)

/-- Number of cluster members, the leader included, known to hold index `n`. -/
def replicas (r : Raft) (n : Nat) : Nat :=
  1 + r.peers.countP fun p => decide (p.matchIndex ≥ n)

/-- The downward scan of `updateCommitIndex`, starting at `n`. -/
def scanCommit (r : Raft) : Nat → Raft
  | 0 => r
  | n + 1 =>
      if n + 1 > r.commitIndex then
        match entryAt r.log (((n + 1 : Nat) : Int) - r.logBase - 1) with
        | none => r.scanCommit n
        | some entry =>
            if r.replicas (n + 1) > (r.peers.length + 1) / 2 then
              if entry.term = r.currentTerm then
                { r with commitIndex := n + 1 }.signalCommit
              else r
            else r.scanCommit n
      else r

/-- Advance the commit index to the highest majority index, provided that its
entry is of the current term. -/
def updateCommitIndex (r : Raft) : Raft :=
  if r.state ≠ .leader then r else r.scanCommit (r.log.length + r.logBase)

/-- Critical section in which `sendAppendEntries` handles the reply to `req`.
The flag says that the call is retried. -/
def handleAppendEntriesResponse (r : Raft) (peerId : Int)
    (req : AppendEntriesRequest) (resp : AppendEntriesResponse) : Raft × Bool :=
  if r.state ≠ .leader ∨ r.currentTerm ≠ req.term ∨ r.shutdown then (r, false)
  else if resp.term > r.currentTerm then (r.stepDown resp.term, false)
  else if resp.success then
    let newMatch := req.prevLogIndex + req.entries.length
    let r := r.updatePeer peerId fun p =>
      let matchIndex := if newMatch > p.matchIndex then newMatch else p.matchIndex
      { p with matchIndex, nextIndex := matchIndex + 1 }
    (r.updateCommitIndex, false)
  else
    (r.updatePeer peerId fun p =>
      if p.nextIndex > 1 then { p with nextIndex := p.nextIndex - 1 } else p, true)

/-! ## Client commands -/

/-- Errors of `ReplicateCommand`. -/
inductive ReplicateError where
  | notLeader
  | timeout
  | persist (err : String)
  deriving DecidableEq, Repr

/-- The text of an error of `ReplicateCommand`. -/
def ReplicateError.text : ReplicateError → String
  | .notLeader => "not leader"
  | .timeout => "timeout waiting for commit"
  | .persist err => "persist command: " ++ err

/-- The append step of `ReplicateCommand`; the index is the one the call then
waits for.  A failed store rolls the append back. -/
def replicateCommand (r : Raft) (cmd : Bytes) (disk : Disk) :
    Raft × Except ReplicateError Nat :=
  if r.state ≠ .leader then (r, .error .notLeader)
  else
    let nextIdx := r.log.length + r.logBase + 1
    let entry : LogEntry := { index := nextIdx, term := r.currentTerm, command := cmd }
    let r := { r with log := r.log ++ [entry] }
    match r.persist disk with
    | .error err => ({ r with log := r.log.dropLast }, .error (.persist err))
    | .ok r => (r.updateCommitIndex, .ok nextIdx)

/-! ## What the handlers do -/

theorem Yields.hearFromLeader (r : Raft) (leaderId : Int) :
    Yields r (r.hearFromLeader leaderId) := by
  unfold Raft.hearFromLeader
  split
  · exact .bookkeeping r leaderId _ r.commitCh
  · exact .resetElectionTimer r

@[simp] theorem hearFromLeader_currentTerm (r : Raft) (leaderId : Int) :
    (r.hearFromLeader leaderId).currentTerm = r.currentTerm := by
  unfold hearFromLeader
  split <;> rfl

/-- Rule 6 moves the commit index up to the lower of the leader's commit index
and the last new entry, never down. -/
theorem advanceCommit_eq (r : Raft) (req : AppendEntriesRequest) :
    ∃ commitCh, r.advanceCommit req =
      { r with
        commitIndex := max r.commitIndex
          (min req.leaderCommit (req.prevLogIndex + req.entries.length))
        commitCh } := by
  have noMove : ∀ n, n ≤ r.commitIndex →
      r = { r with commitIndex := max r.commitIndex n, commitCh := r.commitCh } := by
    intro n le
    rw [Nat.max_eq_left le]
  have least : (if req.leaderCommit > req.prevLogIndex + req.entries.length then
      req.prevLogIndex + req.entries.length else req.leaderCommit) =
        min req.leaderCommit (req.prevLogIndex + req.entries.length) := by
    split <;> omega
  unfold advanceCommit
  simp only [least]
  split
  · split
    next higher =>
      refine ⟨true, ?_⟩
      rw [Nat.max_eq_right (Nat.le_of_lt higher)]
      rfl
    next lower => exact ⟨r.commitCh, noMove _ (Nat.not_lt.mp lower)⟩
  next lower =>
    refine ⟨r.commitCh, noMove _ ?_⟩
    omega

@[simp] theorem advanceCommit_log (r : Raft) (req : AppendEntriesRequest) :
    (r.advanceCommit req).log = r.log := by
  obtain ⟨commitCh, advanced⟩ := advanceCommit_eq r req
  rw [advanced]

@[simp] theorem advanceCommit_currentTerm (r : Raft) (req : AppendEntriesRequest) :
    (r.advanceCommit req).currentTerm = r.currentTerm := by
  obtain ⟨commitCh, advanced⟩ := advanceCommit_eq r req
  rw [advanced]

/-- `AppendEntries` gets past its checks and its loop leaves `log`. -/
structure Accepts (r : Raft) (req : AppendEntriesRequest) (log : List LogEntry)
    (modified : Bool) : Prop where
  current : r.currentTerm ≤ req.term
  consistent : r.prevLogOk req
  loop : appendLoop r.logBase req.prevLogIndex 0 req.entries (r.log, false) =
    some (log, modified)

section Cases

variable {r r' : Raft} {disk : Disk}

/-- The paths through the `AppendEntries` handler that do not panic.  Past the first
check the node has heard from its leader, as `heard`. -/
inductive AppendEntriesPath (r : Raft) (req : AppendEntriesRequest) :
    Raft → Except String AppendEntriesResponse → Prop where
  | stale (lower : req.term < r.currentTerm) :
      AppendEntriesPath r req r (.ok { term := r.currentTerm, success := false })
  | refused {heard : Raft} (current : r.currentTerm ≤ req.term)
      (hears : heard = (r.adoptTerm req.term).hearFromLeader req.leaderId) :
      AppendEntriesPath r req heard (.ok { term := req.term, success := false })
  | unsaved {heard : Raft} {log : List LogEntry} {err : String}
      (hears : heard = (r.adoptTerm req.term).hearFromLeader req.leaderId)
      (accepts : Accepts r req log true) :
      AppendEntriesPath r req { heard with log } (.error ("persist on append: " ++ err))
  | stored {heard : Raft} {log : List LogEntry}
      (hears : heard = (r.adoptTerm req.term).hearFromLeader req.leaderId)
      (accepts : Accepts r req log true) :
      AppendEntriesPath r req ((saved { heard with log }).advanceCommit req)
        (.ok { term := req.term, success := true })
  | unchanged {heard : Raft} {log : List LogEntry}
      (hears : heard = (r.adoptTerm req.term).hearFromLeader req.leaderId)
      (accepts : Accepts r req log false) :
      AppendEntriesPath r req ({ heard with log }.advanceCommit req)
        (.ok { term := req.term, success := true })

/-- A node that hears from a leader of its term or a higher one is in that term and
yields. -/
theorem hears_leader {req : AppendEntriesRequest} {heard : Raft}
    (current : r.currentTerm ≤ req.term)
    (hears : heard = (r.adoptTerm req.term).hearFromLeader req.leaderId) :
    Yields r heard ∧ heard.currentTerm = req.term := by
  rw [hears]
  exact ⟨(Yields.adoptTerm r req.term).trans (.hearFromLeader _ _), by simp [current]⟩

theorem appendEntries_path {req : AppendEntriesRequest}
    {reply : Except String AppendEntriesResponse}
    (called : r.appendEntries req disk = some (r', reply)) :
    AppendEntriesPath r req r' reply := by
  unfold appendEntries at called
  split at called
  next lower =>
    cases called
    exact .stale lower
  next current =>
    have current : r.currentTerm ≤ req.term := Nat.not_lt.mp current
    generalize hears : (r.adoptTerm req.term).hearFromLeader req.leaderId = heard at called
    obtain ⟨yields, term⟩ := hears_leader current hears.symm
    simp only at called
    split at called
    next consistent =>
      split at called
      · cases called
      next log modified loop =>
        have accepts : Accepts r req log modified := by
          refine ⟨current, ?_, ?_⟩
          · simpa only [prevLogOk, yields.log, yields.logBase] using consistent
          · rw [← yields.log, ← yields.logBase]
            exact loop
        cases modified with
        | false =>
            have path := AppendEntriesPath.unchanged hears.symm accepts
            rw [← term] at path
            simp only [Bool.false_eq_true, ↓reduceIte] at called
            cases called
            exact path
        | true =>
            have path := AppendEntriesPath.stored hears.symm accepts
            rw [← term] at path
            cases stored : disk.save with
            | some err =>
                simp only [↓reduceIte, persist, stored] at called
                cases called
                exact .unsaved hears.symm accepts
            | none =>
                simp only [↓reduceIte, persist, stored] at called
                cases called
                exact path
    · rw [term] at called
      cases called
      exact .refused current hears.symm

/-- `AppendEntries` refuses, fails to store the changed log, or succeeds. -/
theorem appendEntries_cases {req : AppendEntriesRequest}
    {reply : Except String AppendEntriesResponse}
    (called : r.appendEntries req disk = some (r', reply)) :
    (Yields r r' ∧ ∃ term, reply = .ok { term, success := false }) ∨
      ∃ heard log modified, Yields r heard ∧ heard.currentTerm = req.term ∧
        Accepts r req log modified ∧
        (modified = true ∧ r' = { heard with log } ∧ (∃ err, reply = .error err) ∨
          ∃ commitCh, r' =
            { heard with
              log
              persister := if modified then
                heard.persister.save heard.currentTerm heard.votedFor log
                else heard.persister
              commitIndex := max heard.commitIndex
                (min req.leaderCommit (req.prevLogIndex + req.entries.length))
              commitCh } ∧
            reply = .ok { term := req.term, success := true }) := by
  cases appendEntries_path called with
  | stale lower => exact .inl ⟨.refl r, _, rfl⟩
  | refused current hears => exact .inl ⟨(hears_leader current hears).1, _, rfl⟩
  | @unsaved heard log err hears accepts =>
      obtain ⟨yields, term⟩ := hears_leader accepts.current hears
      exact .inr ⟨heard, log, true, yields, term, accepts, .inl ⟨rfl, rfl, _, rfl⟩⟩
  | @stored heard log hears accepts =>
      obtain ⟨yields, term⟩ := hears_leader accepts.current hears
      obtain ⟨commitCh, advanced⟩ := advanceCommit_eq (saved { heard with log }) req
      exact .inr ⟨heard, log, true, yields, term, accepts, .inr ⟨commitCh, advanced, rfl⟩⟩
  | @unchanged heard log hears accepts =>
      obtain ⟨yields, term⟩ := hears_leader accepts.current hears
      obtain ⟨commitCh, advanced⟩ := advanceCommit_eq { heard with log } req
      exact .inr ⟨heard, log, false, yields, term, accepts, .inr ⟨commitCh, advanced, rfl⟩⟩

/-- Only a leader sends, in its current term and from a positive index. -/
theorem sendAppendEntries_request {peerId : Int} {term commitIdx : Nat}
    {req : AppendEntriesRequest}
    (sent : r.sendAppendEntries peerId term commitIdx = .request req) :
    r.state = .leader ∧ r.currentTerm = term ∧
      ∃ nextIdx, 0 < nextIdx ∧ req = r.appendEntriesRequest nextIdx term commitIdx := by
  unfold sendAppendEntries at sent
  split at sent
  · cases sent
  next peer _ =>
    split at sent
    · cases sent
    next active =>
      simp only [ne_eq, not_or, not_not] at active
      have positive : 0 < (if peer.nextIndex < 1 then 1 else peer.nextIndex) := by
        split <;> omega
      generalize (if peer.nextIndex < 1 then 1 else peer.nextIndex) = nextIdx at *
      simp only at sent
      split at sent
      · cases sent
      · cases sent
        exact ⟨active.1, active.2.1, nextIdx, positive, rfl⟩

theorem sendAppendEntries_installSnapshot {peerId : Int} {term commitIdx : Nat}
    (sent : r.sendAppendEntries peerId term commitIdx = .installSnapshot) :
    r.state = .leader ∧ r.currentTerm = term := by
  unfold sendAppendEntries at sent
  split at sent
  · cases sent
  · split at sent
    · cases sent
    next active =>
      simp only [ne_eq, not_or, not_not] at active
      exact ⟨active.1, active.2.1⟩

@[simp] theorem appendEntriesRequest_term (r : Raft) (nextIdx term commitIdx : Nat) :
    (r.appendEntriesRequest nextIdx term commitIdx).term = term := rfl

/-- `updateCommitIndex` does nothing, or commits an index that a majority holds
and whose entry is of the current term. -/
theorem updateCommitIndex_cases (r : Raft) :
    r.updateCommitIndex = r ∨
      ∃ n entry, r.state = .leader ∧ r.commitIndex < n ∧
        entryAt r.log ((n : Int) - r.logBase - 1) = some entry ∧
        r.replicas n > (r.peers.length + 1) / 2 ∧ entry.term = r.currentTerm ∧
        r.updateCommitIndex = { r with commitIndex := n, commitCh := true } := by
  unfold updateCommitIndex
  split
  · exact .inl rfl
  next leads =>
    generalize r.log.length + r.logBase = start
    induction start with
    | zero => exact .inl rfl
    | succ n ih =>
        unfold scanCommit
        split
        next above =>
          split
          · exact ih
          next entry found =>
            split
            next majority =>
              split
              next ownTerm =>
                exact .inr ⟨n + 1, entry, not_not.mp leads, above, found, majority,
                  ownTerm, rfl⟩
              · exact .inl rfl
            · exact ih
        · exact .inl rfl

/-- Only the commit index and the wake-up slot change, and the commit index does
not go down. -/
theorem updateCommitIndex_eq (r : Raft) :
    ∃ commitIndex commitCh, r.commitIndex ≤ commitIndex ∧
      r.updateCommitIndex = { r with commitIndex, commitCh } := by
  rcases r.updateCommitIndex_cases with same | ⟨n, _, -, above, -, -, -, moved⟩
  · exact ⟨r.commitIndex, r.commitCh, Nat.le_refl _, same⟩
  · exact ⟨n, true, Nat.le_of_lt above, moved⟩

/-- The commit index is one that a majority holds, with an entry of the current
term. -/
structure CommitsByMajority (r : Raft) (entry : LogEntry) : Prop where
  leads : r.state = .leader
  positive : 0 < r.commitIndex
  found : entryAt r.log ((r.commitIndex : Int) - r.logBase - 1) = some entry
  replicas : r.replicas r.commitIndex > (r.peers.length + 1) / 2
  term : entry.term = r.currentTerm

/-- `updateCommitIndex` moves the commit index only to where a majority is. -/
theorem updateCommitIndex_commits (r : Raft) :
    r.updateCommitIndex.commitIndex = r.commitIndex ∨
      ∃ entry, CommitsByMajority r.updateCommitIndex entry := by
  rcases r.updateCommitIndex_cases with
    same | ⟨n, entry, leads, above, found, replicas, term, moved⟩
  · exact .inl (by rw [same])
  · right
    rw [moved]
    exact ⟨entry, leads, Nat.zero_lt_of_lt above, found, replicas, term⟩

section UpdateCommitIndex

variable (r : Raft)

@[simp] theorem updateCommitIndex_serverId :
    r.updateCommitIndex.serverId = r.serverId := by
  obtain ⟨_, _, -, moved⟩ := r.updateCommitIndex_eq
  rw [moved]

@[simp] theorem updateCommitIndex_peers : r.updateCommitIndex.peers = r.peers := by
  obtain ⟨_, _, -, moved⟩ := r.updateCommitIndex_eq
  rw [moved]

@[simp] theorem updateCommitIndex_currentTerm :
    r.updateCommitIndex.currentTerm = r.currentTerm := by
  obtain ⟨_, _, -, moved⟩ := r.updateCommitIndex_eq
  rw [moved]

@[simp] theorem updateCommitIndex_votedFor :
    r.updateCommitIndex.votedFor = r.votedFor := by
  obtain ⟨_, _, -, moved⟩ := r.updateCommitIndex_eq
  rw [moved]

@[simp] theorem updateCommitIndex_state : r.updateCommitIndex.state = r.state := by
  obtain ⟨_, _, -, moved⟩ := r.updateCommitIndex_eq
  rw [moved]

@[simp] theorem updateCommitIndex_log : r.updateCommitIndex.log = r.log := by
  obtain ⟨_, _, -, moved⟩ := r.updateCommitIndex_eq
  rw [moved]

@[simp] theorem updateCommitIndex_persister :
    r.updateCommitIndex.persister = r.persister := by
  obtain ⟨_, _, -, moved⟩ := r.updateCommitIndex_eq
  rw [moved]

@[simp] theorem updateCommitIndex_snapshotThreshold :
    r.updateCommitIndex.snapshotThreshold = r.snapshotThreshold := by
  obtain ⟨_, _, -, moved⟩ := r.updateCommitIndex_eq
  rw [moved]

end UpdateCommitIndex

/-- The paths through the handling of a reply to `AppendEntries`. -/
inductive AppendEntriesReplyPath (r : Raft) (peerId : Int) (req : AppendEntriesRequest)
    (resp : AppendEntriesResponse) : Raft → Bool → Prop where
  | ignored : AppendEntriesReplyPath r peerId req resp r false
  | demoted (leads : r.state = .leader) (current : r.currentTerm = req.term)
      (higher : r.currentTerm < resp.term) :
      AppendEntriesReplyPath r peerId req resp (r.stepDown resp.term) false
  | recorded (leads : r.state = .leader) (current : r.currentTerm = req.term)
      (success : resp.success = true) :
      AppendEntriesReplyPath r peerId req resp
        (r.updatePeer peerId fun p =>
          let matchIndex := max p.matchIndex (req.prevLogIndex + req.entries.length)
          { p with matchIndex, nextIndex := matchIndex + 1 }).updateCommitIndex false
  | retried (leads : r.state = .leader) (current : r.currentTerm = req.term) :
      AppendEntriesReplyPath r peerId req resp
        (r.updatePeer peerId fun p =>
          { p with nextIndex := if p.nextIndex > 1 then p.nextIndex - 1 else p.nextIndex }) true

theorem handleAppendEntriesResponse_path {peerId : Int} {req : AppendEntriesRequest}
    {resp : AppendEntriesResponse} {retry : Bool}
    (called : r.handleAppendEntriesResponse peerId req resp = (r', retry)) :
    AppendEntriesReplyPath r peerId req resp r' retry := by
  unfold handleAppendEntriesResponse at called
  split at called
  · cases called
    exact .ignored
  next active =>
    simp only [ne_eq, not_or, not_not] at active
    obtain ⟨leads, current, -⟩ := active
    split at called
    next higher =>
      cases called
      exact .demoted leads current higher
    next =>
      split at called
      next success =>
        have greater : ∀ p : Peer, (if req.prevLogIndex + req.entries.length > p.matchIndex then
            req.prevLogIndex + req.entries.length else p.matchIndex) =
              max p.matchIndex (req.prevLogIndex + req.entries.length) := by
          intro p
          split <;> omega
        simp only [greater] at called
        cases called
        exact .recorded leads current success
      next =>
        have back : ∀ p : Peer,
            (if p.nextIndex > 1 then { p with nextIndex := p.nextIndex - 1 } else p) =
              { p with nextIndex := if p.nextIndex > 1 then p.nextIndex - 1 else p.nextIndex } := by
          intro p
          split <;> rfl
        simp only [back] at called
        cases called
        exact .retried leads current

/-- The reply handler ignores the reply or steps down, records a success, or
backs off and retries. -/
theorem handleAppendEntriesResponse_cases {peerId : Int} {req : AppendEntriesRequest}
    {resp : AppendEntriesResponse} {retry : Bool}
    (called : r.handleAppendEntriesResponse peerId req resp = (r', retry)) :
    (Yields r r' ∧ retry = false) ∨
      r.state = .leader ∧ r.currentTerm = req.term ∧
        (resp.success = true ∧ retry = false ∧
          r' = (r.updatePeer peerId fun p =>
            let matchIndex := max p.matchIndex (req.prevLogIndex + req.entries.length)
            { p with matchIndex, nextIndex := matchIndex + 1 }).updateCommitIndex ∨
        retry = true ∧ r' = r.updatePeer peerId fun p =>
          { p with nextIndex := if p.nextIndex > 1 then p.nextIndex - 1 else p.nextIndex })
      := by
  cases handleAppendEntriesResponse_path called with
  | ignored => exact .inl ⟨.refl r, rfl⟩
  | demoted leads current higher => exact .inl ⟨.stepDown higher, rfl⟩
  | recorded leads current success =>
      exact .inr ⟨leads, current, .inl ⟨success, rfl, rfl⟩⟩
  | retried leads current => exact .inr ⟨leads, current, .inr ⟨rfl, rfl⟩⟩

/-- `ReplicateCommand` changes nothing, or stores one more entry. -/
theorem replicateCommand_cases {cmd : Bytes} {result : Except ReplicateError Nat}
    (called : r.replicateCommand cmd disk = (r', result)) :
    (r' = r ∧ ∃ err, result = .error err) ∨
      r.state = .leader ∧
        ∃ entry : LogEntry, entry = ⟨r.log.length + r.logBase + 1, r.currentTerm, cmd⟩ ∧
          result = .ok entry.index ∧
          r' = (saved { r with log := r.log ++ [entry] }).updateCommitIndex := by
  unfold replicateCommand at called
  split at called
  · cases called
    exact .inl ⟨rfl, _, rfl⟩
  next leads =>
    simp only [persist] at called
    cases stored : disk.save with
    | some err =>
        simp only [stored] at called
        cases called
        exact .inl ⟨by simp, _, rfl⟩
    | none =>
        simp only [stored] at called
        cases called
        exact .inr ⟨not_not.mp leads, _, rfl, rfl, rfl⟩

end Cases

end Raft

end DistribKV
