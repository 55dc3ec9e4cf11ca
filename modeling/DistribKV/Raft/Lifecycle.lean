import DistribKV.Raft.Snapshot

/-!
# Construction, recovery and the apply loop

`NewRaft` with `loadPersistedState`, the two steps the apply loop takes for each
entry, and the accessors the key-value server calls, from `raft/raft.go`.
-/

namespace DistribKV

/-- The part of a node's configuration that the modelled functions read. -/
structure Config where
  serverId : Int
  peers : List Int
  snapshotThreshold : Int := 0
  deriving DecidableEq, Repr

namespace Raft

/-- The record `NewRaft` starts from, before it loads any stored state. -/
def fresh (cfg : Config) (persister : Persister) : Raft where
  serverId := cfg.serverId
  peers := cfg.peers.map fun id => { id }
  persister := persister
  snapshotThreshold := cfg.snapshotThreshold

/-- Restore a stored snapshot and queue it for the application.  The channel is
empty at this point, so the send cannot fail. -/
def loadSnapshot (r : Raft) (file : SnapshotFile) : Raft :=
  { r with
    logBase := file.lastIncludedIndex
    snapshotIndex := file.lastIncludedIndex
    snapshotTerm := file.lastIncludedTerm
    snapshot := file.data
    commitIndex :=
      if r.commitIndex < file.lastIncludedIndex then file.lastIncludedIndex
      else r.commitIndex
    lastApplied := file.lastIncludedIndex
    applyCh := r.applyCh ++
      [.snapshot file.data file.lastIncludedIndex file.lastIncludedTerm] }

/-- Restore durable state.  Stored entries count as committed, and as applied
too when there is no snapshot. -/
def loadPersistedState (r : Raft) : Raft :=
  match r.persister.hardState with
  | none => r
  | some state =>
      let r := { r with
        currentTerm := state.currentTerm
        votedFor := state.votedFor
        log := state.log }
      let r := match r.persister.snapshotFile with
        | none => r
        | some file => r.loadSnapshot file
      match r.log.getLast? with
      | none => r
      | some last =>
          let r := { r with
            commitIndex := if last.index > r.commitIndex then last.index else r.commitIndex }
          if r.persister.snapshotFile.isSome then r
          else { r with lastApplied := r.commitIndex }

/-- `NewRaft` on what the persister last stored. -/
def newRaft (cfg : Config) (persister : Persister) : Raft :=
  (fresh cfg persister).loadPersistedState

/-- `Start` creates and arms the election timer. -/
def start (r : Raft) : Raft := { r with electionTimer := some true }

/-- The node's configuration, recovered from its record. -/
def config (r : Raft) : Config where
  serverId := r.serverId
  peers := r.peers.map (·.id)
  snapshotThreshold := r.snapshotThreshold

/-- Crash and restart: a new node on the same persister, started again. -/
def restart (r : Raft) : Raft := (newRaft r.config r.persister).start

/-! ### What a node recovers -/

section Recovery

variable (cfg : Config) {p : Persister}

/-- The shape of every floor in the recovery code. -/
theorem floor_eq_max (floor n : Nat) : (if n > floor then n else floor) = max floor n := by
  split <;> omega

/-- Recovery without a snapshot: the whole stored log counts as committed and
as applied. -/
theorem newRaft_of_noSnapshot (noSnapshot : p.snapshotFile = none) :
    newRaft cfg p =
      { fresh cfg p with
        currentTerm := p.term
        votedFor := p.vote
        log := p.log
        commitIndex := (p.log.getLast?.map (·.index)).getD 0
        lastApplied := (p.log.getLast?.map (·.index)).getD 0 } := by
  obtain ⟨hardState, snapshotFile⟩ := p
  subst noSnapshot
  cases hardState with
  | none => rfl
  | some state =>
      obtain ⟨term, vote, log⟩ := state
      simp only [newRaft, loadPersistedState, fresh, Persister.term, Persister.vote,
        Persister.log, Option.map_some, Option.getD_some]
      cases log.getLast? with
      | none => rfl
      | some last =>
          simp
          exact Eq.symm

/-- Recovery with a snapshot: the stored log counts as committed, the snapshot
as applied, and the snapshot is queued for the application. -/
theorem newRaft_of_snapshot (stored : p.hardState.isSome) {file : SnapshotFile}
    (snapshot : p.snapshotFile = some file) :
    newRaft cfg p =
      { fresh cfg p with
        currentTerm := p.term
        votedFor := p.vote
        log := p.log
        logBase := file.lastIncludedIndex
        snapshot := file.data
        snapshotIndex := file.lastIncludedIndex
        snapshotTerm := file.lastIncludedTerm
        commitIndex :=
          max file.lastIncludedIndex ((p.log.getLast?.map (·.index)).getD 0)
        lastApplied := file.lastIncludedIndex
        applyCh :=
          [.snapshot file.data file.lastIncludedIndex file.lastIncludedTerm] } := by
  obtain ⟨hardState, snapshotFile⟩ := p
  subst snapshot
  obtain ⟨⟨term, vote, log⟩, rfl⟩ := Option.isSome_iff_exists.mp stored
  simp only [newRaft, loadPersistedState, loadSnapshot, ← gt_iff_lt, floor_eq_max, fresh,
    Persister.term, Persister.vote, Persister.log, Option.map_some, Option.getD_some]
  cases log.getLast? with
  | none => simp
  | some last => simp

/-- Without stored state a snapshot file is not read. -/
theorem newRaft_of_blank (blank : p.hardState = none) : newRaft cfg p = fresh cfg p := by
  obtain ⟨hardState, snapshotFile⟩ := p
  subst blank
  rfl

/-- Whatever was stored, a node starts as a follower with the stored term, vote
and log. -/
theorem newRaft_eq (p : Persister) :
    ∃ logBase snapshot snapshotIndex snapshotTerm commitIndex lastApplied applyCh,
      newRaft cfg p =
        { fresh cfg p with
          currentTerm := p.term
          votedFor := p.vote
          log := p.log
          logBase, snapshot, snapshotIndex, snapshotTerm, commitIndex, lastApplied
          applyCh } := by
  cases file : p.snapshotFile with
  | none => exact ⟨_, _, _, _, _, _, _, newRaft_of_noSnapshot cfg file⟩
  | some file' =>
      cases stored : p.hardState with
      | none =>
          refine ⟨0, [], 0, 0, 0, 0, [], ?_⟩
          rw [newRaft_of_blank cfg stored]
          simp [fresh, Persister.term, Persister.vote, Persister.log, stored]
      | some state =>
          exact ⟨_, _, _, _, _, _, _, newRaft_of_snapshot cfg (by simp [stored]) file⟩

end Recovery

/-- A restart in terms of what the persister holds. -/
theorem restart_eq (r : Raft) :
    ∃ logBase snapshot snapshotIndex snapshotTerm commitIndex lastApplied applyCh,
      r.restart =
        { fresh r.config r.persister with
          currentTerm := r.persister.term
          votedFor := r.persister.vote
          log := r.persister.log
          electionTimer := some true
          logBase, snapshot, snapshotIndex, snapshotTerm, commitIndex, lastApplied
          applyCh } := by
  obtain ⟨_, _, _, _, _, _, _, recovered⟩ := newRaft_eq r.config r.persister
  exact ⟨_, _, _, _, _, _, _, by rw [restart, recovered]; rfl⟩

section Restart

variable (r : Raft)

@[simp] theorem restart_state : r.restart.state = .follower := by
  obtain ⟨_, _, _, _, _, _, _, restarted⟩ := r.restart_eq
  rw [restarted]
  rfl

@[simp] theorem restart_currentTerm : r.restart.currentTerm = r.persister.term := by
  obtain ⟨_, _, _, _, _, _, _, restarted⟩ := r.restart_eq
  rw [restarted]

@[simp] theorem restart_votedFor : r.restart.votedFor = r.persister.vote := by
  obtain ⟨_, _, _, _, _, _, _, restarted⟩ := r.restart_eq
  rw [restarted]

@[simp] theorem restart_log : r.restart.log = r.persister.log := by
  obtain ⟨_, _, _, _, _, _, _, restarted⟩ := r.restart_eq
  rw [restarted]

@[simp] theorem restart_persister : r.restart.persister = r.persister := by
  obtain ⟨_, _, _, _, _, _, _, restarted⟩ := r.restart_eq
  rw [restarted]
  rfl

end Restart

/-! ## The apply loop -/

/-- First step of `applyPendingEntries`: under the lock, take the next committed
entry and bump `lastApplied`.  The result is `none` when the loop returns. -/
def takeEntry (r : Raft) : Option (Raft × ApplyMsg) :=
  if r.lastApplied ≥ r.commitIndex then none
  else
    let idx := r.lastApplied + 1
    match entryAt r.log ((idx : Int) - r.logBase - 1) with
    | none => none
    | some entry =>
        some ({ r with lastApplied := idx }, .command entry.command entry.index)

theorem takeEntry_cases {r r' : Raft} {msg : ApplyMsg}
    (taken : r.takeEntry = some (r', msg)) :
    r.lastApplied < r.commitIndex ∧
      ∃ entry, entryAt r.log (((r.lastApplied + 1 : Nat) : Int) - r.logBase - 1) = some entry ∧
        r' = { r with lastApplied := r.lastApplied + 1 } ∧
        msg = .command entry.command entry.index := by
  unfold takeEntry at taken
  split at taken
  · cases taken
  next pending =>
    simp only at taken
    split at taken
    · cases taken
    next entry found =>
      cases taken
      exact ⟨Nat.not_le.mp pending, entry, found, rfl, rfl⟩

/-- Second step: send the message, without the lock.  The result is `none` while
the channel is full and the send blocks. -/
def sendEntry (r : Raft) (msg : ApplyMsg) : Option Raft :=
  if r.applyCh.length < applyChCap then some { r with applyCh := r.applyCh ++ [msg] }
  else none

theorem sendEntry_eq {r r' : Raft} {msg : ApplyMsg} (sent : r.sendEntry msg = some r') :
    r' = { r with applyCh := r.applyCh ++ [msg] } := by
  unfold sendEntry at sent
  split at sent
  · cases sent
    rfl
  · cases sent

/-! ## Accessors -/

def isLeader (r : Raft) : Bool := decide (r.state = .leader)

/-- The leader a node names: itself while it leads, otherwise the one it last heard
of, `-1` if none. -/
def getLeaderId (r : Raft) : Int := if r.state = .leader then r.serverId else r.leaderId

end Raft

end DistribKV
