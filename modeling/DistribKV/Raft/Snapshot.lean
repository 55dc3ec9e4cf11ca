import DistribKV.Raft.Replication

/-!
# Log compaction

`Raft.Snapshot` and the snapshot transfer of `raft/snapshot.go`, with the
`InstallSnapshot` handler of `raft/replication.go`.
-/

namespace DistribKV

/-- Cap on a snapshot, both locally and on the wire. -/
def maxSnapshotBytes : Nat := 4 * 1024 * 1024

/-- Capacity of the apply channel. -/
def applyChCap : Nat := 100

namespace Raft

/-- The in-memory part of a compaction up to `index`. -/
def compact (r : Raft) (index : Nat) (data : Bytes) (term : Nat) : Raft :=
  { r with
    log := r.log.drop (index - r.logBase)
    logBase := index
    snapshot := data
    snapshotIndex := index
    snapshotTerm := term }

/-- The node after its snapshot has been stored. -/
def savedSnapshot (r : Raft) : Raft :=
  { r with
    persister := r.persister.saveSnapshot r.snapshot r.snapshotIndex r.snapshotTerm }

/-- Compact the log up to `index`.  The second component is the error text. -/
def snapshotUpTo (r : Raft) (index : Nat) (data : Bytes) (disk : Disk) :
    Raft × Option String :=
  if data.length > maxSnapshotBytes then
    (r, some ("snapshot " ++ toString data.length ++ " bytes exceeds cap " ++
      toString maxSnapshotBytes))
  else if index > r.commitIndex then
    (r, some ("snapshot index " ++ toString index ++ " beyond commitIndex " ++
      toString r.commitIndex))
  else if index ≤ r.logBase then (r, none)
  else
    let missing := "log does not contain entry at index " ++ toString index ++
      " (logBase " ++ toString r.logBase ++ ", len " ++ toString r.log.length ++ ")"
    let arrayIdx : Int := (index : Int) - r.logBase - 1
    match entryAt r.log arrayIdx with
    | none => (r, some missing)
    | some entry =>
        if entry.index ≠ index then (r, some missing)
        else
          -- `r.log[arrayIdx+1:]`, and `arrayIdx + 1` is `index - r.logBase`
          let r := r.compact index data entry.term
          match r.persist disk with
          | .error err => (r, some ("persist raft state after snapshot: " ++ err))
          | .ok r =>
              match disk.saveSnapshot with
              | some err => (r, some ("save snapshot: " ++ err))
              | none => (r.savedSnapshot, none)

/-- The request `sendInstallSnapshot` builds; `none` when it returns early.  The
role is not checked again before the snapshot is read. -/
def sendInstallSnapshot (r : Raft) (peerId : Int) (term : Nat) :
    Option InstallSnapshotRequest :=
  if r.shutdown then none
  else
    match r.peer? peerId with
    | none => none
    | some _ =>
        if r.snapshot.length = 0 then none
        else
          some {
            term
            leaderId := int32 r.serverId
            lastIncludedIndex := r.snapshotIndex
            lastIncludedTerm := r.snapshotTerm
            data := r.snapshot }

/-- Critical section in which `sendInstallSnapshot` handles the reply to `req`.
Every reply of the current term counts as an installation. -/
def handleInstallSnapshotResponse (r : Raft) (peerId : Int)
    (req : InstallSnapshotRequest) (resp : InstallSnapshotResponse) : Raft :=
  if r.state ≠ .leader ∨ r.currentTerm ≠ req.term ∨ r.shutdown then r
  else if resp.term > r.currentTerm then r.stepDown resp.term
  else
    let r := r.updatePeer peerId fun p =>
      let matchIndex :=
        if req.lastIncludedIndex > p.matchIndex then req.lastIncludedIndex
        else p.matchIndex
      { p with matchIndex, nextIndex := matchIndex + 1 }
    r.updateCommitIndex

/-- The divergence guard: the log holds the snapshot's last entry with another
term. -/
def contradicts (r : Raft) (req : InstallSnapshotRequest) : Bool :=
  match entryAt r.log ((req.lastIncludedIndex : Int) - r.logBase - 1) with
  | none => false
  | some entry =>
      decide (entry.index = req.lastIncludedIndex) &&
        decide (entry.term ≠ req.lastIncludedTerm)

/-- The in-memory part of an installation: keep the tail past the snapshot and
move base, snapshot, commit and apply indices to it. -/
def install (r : Raft) (req : InstallSnapshotRequest) : Raft :=
  { r with
    log := r.log.filter fun entry => decide (entry.index > req.lastIncludedIndex)
    logBase := req.lastIncludedIndex
    snapshot := req.data
    snapshotIndex := req.lastIncludedIndex
    snapshotTerm := req.lastIncludedTerm
    commitIndex :=
      if r.commitIndex < req.lastIncludedIndex then req.lastIncludedIndex
      else r.commitIndex
    lastApplied := req.lastIncludedIndex }

/-- Bookkeeping on a current-term snapshot: adopt a higher term, record the
sender, and re-arm the election timer. -/
def hearSnapshot (r : Raft) (req : InstallSnapshotRequest) : Raft :=
  { (if req.term > r.currentTerm then r.stepDown req.term
      else r).resetElectionTimerLocked with
    leaderId := req.leaderId }

/-- The `InstallSnapshot` handler. -/
def installSnapshot (r : Raft) (req : InstallSnapshotRequest) (disk : Disk) :
    Raft × Except String InstallSnapshotResponse :=
  if req.data.length > maxSnapshotBytes then
    (r, .error ("rpc error: code = InvalidArgument desc = snapshot " ++
      toString req.data.length ++ " bytes exceeds cap " ++ toString maxSnapshotBytes))
  else if req.term < r.currentTerm then (r, .ok { term := r.currentTerm })
  else
    let r := r.hearSnapshot req
    if req.lastIncludedIndex ≤ r.commitIndex then (r, .ok { term := r.currentTerm })
    else if r.contradicts req then (r, .ok { term := r.currentTerm })
    else
      match (r.install req).persist disk with
      | .error err =>
          (r.install req, .error ("persist raft state after InstallSnapshot: " ++ err))
      | .ok r =>
          match disk.saveSnapshot with
          | some err => (r, .error ("save snapshot after InstallSnapshot: " ++ err))
          | none =>
              let r := r.savedSnapshot
              if r.applyCh.length < applyChCap then
                ({ r with
                  applyCh := r.applyCh ++
                    [.snapshot req.data req.lastIncludedIndex req.lastIncludedTerm] },
                  .ok { term := r.currentTerm })
              else
                (r, .error "applyCh full while queueing InstallSnapshot rehydration")

/-! ## What the handlers do -/

section Cases

variable {r r' : Raft} {disk : Disk}

/-- A compaction is refused, fails to store one of its two files, or succeeds. -/
theorem snapshotUpTo_cases {index : Nat} {data : Bytes} {err : Option String}
    (called : r.snapshotUpTo index data disk = (r', err)) :
    r' = r ∨
      r.logBase < index ∧ index ≤ r.commitIndex ∧
        ∃ entry, entryAt r.log ((index : Int) - r.logBase - 1) = some entry ∧
          entry.index = index ∧
          (r' = r.compact index data entry.term ∧ err.isSome ∨
            r' = (r.compact index data entry.term).saved ∧ err.isSome ∨
            r' = (r.compact index data entry.term).saved.savedSnapshot ∧
              err = none) := by
  unfold snapshotUpTo at called
  split at called
  · cases called
    exact .inl rfl
  split at called
  · cases called
    exact .inl rfl
  next committed =>
    split at called
    · cases called
      exact .inl rfl
    next above =>
      simp only at called
      split at called
      · cases called
        exact .inl rfl
      next entry found =>
        split at called
        · cases called
          exact .inl rfl
        next matching =>
          refine .inr ⟨Nat.not_le.mp above, Nat.not_lt.mp committed, entry, found,
            not_not.mp matching, ?_⟩
          simp only [persist] at called
          cases stored : disk.save with
          | some err =>
              simp only [stored] at called
              cases called
              exact .inl ⟨rfl, rfl⟩
          | none =>
              simp only [stored] at called
              cases storedSnapshot : disk.saveSnapshot with
              | some err =>
                  simp only [storedSnapshot] at called
                  cases called
                  exact .inr (.inl ⟨rfl, rfl⟩)
              | none =>
                  simp only [storedSnapshot] at called
                  cases called
                  exact .inr (.inr ⟨rfl, rfl⟩)

/-- A transfer carries the snapshot the node holds when it is sent. -/
theorem sendInstallSnapshot_request {peerId : Int} {term : Nat}
    {req : InstallSnapshotRequest} (sent : r.sendInstallSnapshot peerId term = some req) :
    req = ⟨term, int32 r.serverId, r.snapshotIndex, r.snapshotTerm, r.snapshot⟩ := by
  unfold sendInstallSnapshot at sent
  split at sent
  · cases sent
  · split at sent
    · cases sent
    · split at sent
      · cases sent
      · cases sent
        rfl

/-- The paths through the handling of a reply to `InstallSnapshot`. -/
inductive InstallSnapshotReplyPath (r : Raft) (peerId : Int) (req : InstallSnapshotRequest)
    (resp : InstallSnapshotResponse) : Raft → Prop where
  | ignored : InstallSnapshotReplyPath r peerId req resp r
  | demoted (leads : r.state = .leader) (current : r.currentTerm = req.term)
      (higher : r.currentTerm < resp.term) :
      InstallSnapshotReplyPath r peerId req resp (r.stepDown resp.term)
  | recorded (leads : r.state = .leader) (current : r.currentTerm = req.term)
      (lower : resp.term ≤ r.currentTerm) :
      InstallSnapshotReplyPath r peerId req resp
        (r.updatePeer peerId fun p =>
          let matchIndex := max p.matchIndex req.lastIncludedIndex
          { p with matchIndex, nextIndex := matchIndex + 1 }).updateCommitIndex

theorem handleInstallSnapshotResponse_path (r : Raft) (peerId : Int)
    (req : InstallSnapshotRequest) (resp : InstallSnapshotResponse) :
    InstallSnapshotReplyPath r peerId req resp
      (r.handleInstallSnapshotResponse peerId req resp) := by
  unfold handleInstallSnapshotResponse
  split
  · exact .ignored
  next active =>
    simp only [ne_eq, not_or, not_not] at active
    obtain ⟨leads, current, -⟩ := active
    split
    next higher => exact .demoted leads current higher
    next lower =>
      have greater : ∀ p : Peer,
          (if req.lastIncludedIndex > p.matchIndex then req.lastIncludedIndex
            else p.matchIndex) = max p.matchIndex req.lastIncludedIndex := by
        intro p
        split <;> omega
      simp only [greater]
      exact .recorded leads current (Nat.not_lt.mp lower)

/-- The reply handler ignores the reply or steps down, or records the transfer. -/
theorem handleInstallSnapshotResponse_cases (r : Raft) (peerId : Int)
    (req : InstallSnapshotRequest) (resp : InstallSnapshotResponse) :
    Yields r (r.handleInstallSnapshotResponse peerId req resp) ∨
      r.state = .leader ∧ r.currentTerm = req.term ∧
        r.handleInstallSnapshotResponse peerId req resp =
          (r.updatePeer peerId fun p =>
            let matchIndex := max p.matchIndex req.lastIncludedIndex
            { p with matchIndex, nextIndex := matchIndex + 1 }).updateCommitIndex := by
  have path := r.handleInstallSnapshotResponse_path peerId req resp
  generalize r.handleInstallSnapshotResponse peerId req resp = r' at *
  cases path with
  | ignored => exact .inl (.refl r)
  | demoted leads current higher => exact .inl (.stepDown higher)
  | recorded leads current lower => exact .inr ⟨leads, current, rfl⟩

theorem Yields.hearSnapshot (r : Raft) (req : InstallSnapshotRequest) :
    Yields r (r.hearSnapshot req) := by
  unfold Raft.hearSnapshot
  split
  next higher =>
    exact (Yields.stepDown higher).trans (.bookkeeping _ req.leaderId _ _)
  next => exact .bookkeeping r req.leaderId _ _

theorem hearSnapshot_currentTerm {req : InstallSnapshotRequest}
    (current : r.currentTerm ≤ req.term) : (r.hearSnapshot req).currentTerm = req.term := by
  unfold hearSnapshot
  split
  · rfl
  · simp only [resetElectionTimerLocked]
    omega

/-- What holds when `InstallSnapshot` gets past its guards: `heard` is the node
at that point. -/
structure Installs (r : Raft) (req : InstallSnapshotRequest) (heard : Raft) : Prop where
  yields : Yields r heard
  term : heard.currentTerm = req.term
  fresh : r.commitIndex < req.lastIncludedIndex
  agrees : r.contradicts req = false

theorem Installs.current {req : InstallSnapshotRequest} {heard : Raft}
    (installs : Installs r req heard) : r.currentTerm ≤ req.term :=
  installs.term ▸ installs.yields.term_le

theorem contradicts_hearSnapshot (r : Raft) (req : InstallSnapshotRequest) :
    (r.hearSnapshot req).contradicts req = r.contradicts req := by
  have yields := Yields.hearSnapshot r req
  unfold contradicts
  rw [yields.log, yields.logBase]

/-- The guards of the handler are stated on the node it starts from. -/
theorem Installs.of_guards {req : InstallSnapshotRequest} (current : r.currentTerm ≤ req.term)
    (fresh : ¬ req.lastIncludedIndex ≤ (r.hearSnapshot req).commitIndex)
    (agrees : ¬ (r.hearSnapshot req).contradicts req = true) :
    Installs r req (r.hearSnapshot req) where
  yields := .hearSnapshot r req
  term := hearSnapshot_currentTerm current
  fresh := (Yields.hearSnapshot r req).commitIndex ▸ Nat.not_le.mp fresh
  agrees := by rwa [contradicts_hearSnapshot, Bool.not_eq_true] at agrees

/-- The paths through the `InstallSnapshot` handler.  Past the first two checks the
node has heard from its leader, as `heard`. -/
inductive InstallSnapshotPath (r : Raft) (req : InstallSnapshotRequest) :
    Raft → Except String InstallSnapshotResponse → Prop where
  | oversized {err : String} (large : maxSnapshotBytes < req.data.length) :
      InstallSnapshotPath r req r (.error err)
  | stale (small : req.data.length ≤ maxSnapshotBytes) (lower : req.term < r.currentTerm) :
      InstallSnapshotPath r req r (.ok { term := r.currentTerm })
  | discarded {heard : Raft} (hears : heard = r.hearSnapshot req)
      (small : req.data.length ≤ maxSnapshotBytes) (current : r.currentTerm ≤ req.term)
      (useless : req.lastIncludedIndex ≤ r.commitIndex ∨ r.contradicts req = true) :
      InstallSnapshotPath r req heard (.ok { term := req.term })
  | unsaved {heard : Raft} {err : String} (hears : heard = r.hearSnapshot req)
      (installs : Installs r req heard) :
      InstallSnapshotPath r req (heard.install req) (.error err)
  | unsavedSnapshot {heard : Raft} {err : String} (hears : heard = r.hearSnapshot req)
      (installs : Installs r req heard) :
      InstallSnapshotPath r req (heard.install req).saved (.error err)
  | unqueued {heard : Raft} {err : String} (hears : heard = r.hearSnapshot req)
      (installs : Installs r req heard) :
      InstallSnapshotPath r req (heard.install req).saved.savedSnapshot (.error err)
  | installed {heard : Raft} (hears : heard = r.hearSnapshot req)
      (installs : Installs r req heard) :
      InstallSnapshotPath r req
        { (heard.install req).saved.savedSnapshot with
          applyCh := heard.applyCh ++
            [.snapshot req.data req.lastIncludedIndex req.lastIncludedTerm] }
        (.ok { term := req.term })

theorem installSnapshot_path {req : InstallSnapshotRequest}
    {reply : Except String InstallSnapshotResponse}
    (called : r.installSnapshot req disk = (r', reply)) : InstallSnapshotPath r req r' reply := by
  unfold installSnapshot at called
  split at called
  next large =>
    cases called
    exact .oversized large
  next small =>
    have small := Nat.not_lt.mp small
    split at called
    next lower =>
      cases called
      exact .stale small lower
    next current =>
      have current := Nat.not_lt.mp current
      have term := hearSnapshot_currentTerm current
      simp only [term] at called
      split at called
      next applied =>
        cases called
        rw [(Yields.hearSnapshot r req).commitIndex] at applied
        exact .discarded rfl small current (.inl applied)
      next fresh =>
        split at called
        next differs =>
          cases called
          rw [contradicts_hearSnapshot] at differs
          exact .discarded rfl small current (.inr differs)
        next agrees =>
          have installs := Installs.of_guards current fresh agrees
          generalize hears : r.hearSnapshot req = heard at *
          simp only [persist] at called
          cases stored : disk.save with
          | some err =>
              simp only [stored] at called
              cases called
              exact .unsaved hears.symm installs
          | none =>
              simp only [stored] at called
              cases storedSnapshot : disk.saveSnapshot with
              | some err =>
                  simp only [storedSnapshot] at called
                  cases called
                  exact .unsavedSnapshot hears.symm installs
              | none =>
                  have path := InstallSnapshotPath.installed hears.symm installs
                  rw [← term] at path
                  simp only [storedSnapshot] at called
                  split at called
                  · cases called
                    exact path
                  · cases called
                    exact .unqueued hears.symm installs

/-- `InstallSnapshot` refuses, or installs and then fails to store one of its two
files, fails to queue the message, or succeeds. -/
theorem installSnapshot_cases {req : InstallSnapshotRequest}
    {reply : Except String InstallSnapshotResponse}
    (called : r.installSnapshot req disk = (r', reply)) :
    Yields r r' ∨ ∃ heard, Installs r req heard ∧
      (r' = heard.install req ∧ (∃ err, reply = .error err) ∨
        r' = (heard.install req).saved ∧ (∃ err, reply = .error err) ∨
        r' = (heard.install req).saved.savedSnapshot ∧ (∃ err, reply = .error err) ∨
        r' = { (heard.install req).saved.savedSnapshot with
          applyCh := heard.applyCh ++
            [.snapshot req.data req.lastIncludedIndex req.lastIncludedTerm] } ∧
          reply = .ok { term := req.term }) := by
  cases installSnapshot_path called with
  | oversized large => exact .inl (.refl r)
  | stale small lower => exact .inl (.refl r)
  | discarded hears small current useless =>
      rw [hears]
      exact .inl (.hearSnapshot r req)
  | unsaved hears installs => exact .inr ⟨_, installs, .inl ⟨rfl, _, rfl⟩⟩
  | unsavedSnapshot hears installs => exact .inr ⟨_, installs, .inr (.inl ⟨rfl, _, rfl⟩)⟩
  | unqueued hears installs => exact .inr ⟨_, installs, .inr (.inr (.inl ⟨rfl, _, rfl⟩))⟩
  | installed hears installs => exact .inr ⟨_, installs, .inr (.inr (.inr ⟨rfl, rfl⟩))⟩

end Cases

end Raft

end DistribKV
