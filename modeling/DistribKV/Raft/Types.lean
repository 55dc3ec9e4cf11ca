import Mathlib.Data.List.Basic

/-!
# Data types of the consensus engine

This module holds the domain types of `raft/types.go`, the wire messages of
`proto/raft.proto`, and the `Raft` record of `raft/raft.go`.

Terms and absolute log indices are natural numbers; slice offsets, which may be
negative before the code checks them, are integers.  Node ids are integers,
because `-1` is the sentinel for "no vote" and "unknown leader".

In the source these numbers have 64 bits.  The one place where the code itself can
leave their range is the increment of the term in `becomeCandidate`, because a
request may carry any term; results that depend on it ask for a term below `maxInt`
there.
-/

namespace DistribKV

/-- The greatest value of a Go `int`. -/
def maxInt : Nat := 9223372036854775807

/-- An opaque payload: a serialized command or a serialized snapshot. -/
abbrev Bytes := List UInt8

/-- One entry of the replicated log. -/
structure LogEntry where
  index : Nat
  term : Nat
  command : Bytes
  deriving DecidableEq, Repr

/-- The Raft role of a node. -/
inductive State where
  | follower
  | candidate
  | leader
  deriving DecidableEq, Repr

/-- A message for the application.  The two constructors are the two valid
settings of the `CommandValid` and `SnapshotValid` flags. -/
inductive ApplyMsg where
  | command (command : Bytes) (commandIndex : Nat)
  | snapshot (data : Bytes) (lastIncludedIndex lastIncludedTerm : Nat)
  deriving DecidableEq, Repr

/-- The absolute index a message brings the application to. -/
def ApplyMsg.index : ApplyMsg → Nat
  | .command _ commandIndex => commandIndex
  | .snapshot _ lastIncludedIndex _ => lastIncludedIndex

/-! ## Wire messages -/

/-- Conversion of a Go `int` to the `int32` used for ids on the wire: the value in
`-2^31 .. 2^31 - 1` with the same lower 32 bits. -/
def int32 (id : Int) : Int := (id + 2147483648) % 4294967296 - 2147483648

theorem int32_of_fits {id : Int} (nonneg : 0 ≤ id) (fits : id < 2147483648) :
    int32 id = id := by
  unfold int32
  omega

structure RequestVoteRequest where
  term : Nat
  candidateId : Int
  lastLogIndex : Nat
  lastLogTerm : Nat
  deriving DecidableEq, Repr

structure RequestVoteResponse where
  term : Nat
  voteGranted : Bool
  deriving DecidableEq, Repr

structure AppendEntriesRequest where
  term : Nat
  leaderId : Int
  prevLogIndex : Nat
  prevLogTerm : Nat
  entries : List LogEntry
  leaderCommit : Nat
  deriving DecidableEq, Repr

structure AppendEntriesResponse where
  term : Nat
  success : Bool
  deriving DecidableEq, Repr

/-- The single-chunk snapshot transfer.  `offset` and `done` are constants of
the sender and are read by no handler, so they are left out. -/
structure InstallSnapshotRequest where
  term : Nat
  leaderId : Int
  lastIncludedIndex : Nat
  lastIncludedTerm : Nat
  data : Bytes
  deriving DecidableEq, Repr

structure InstallSnapshotResponse where
  term : Nat
  deriving DecidableEq, Repr

/-! ## Durable state -/

/-- The contents of `raft-state.json`. -/
structure HardState where
  currentTerm : Nat
  votedFor : Int
  log : List LogEntry
  deriving DecidableEq, Repr

/-- The contents of `snapshot.bin`. -/
structure SnapshotFile where
  data : Bytes
  lastIncludedIndex : Nat
  lastIncludedTerm : Nat
  deriving DecidableEq, Repr

/-- What a `Persister` last stored successfully.  `none` stands for a file that
was never written. -/
structure Persister where
  hardState : Option HardState := none
  snapshotFile : Option SnapshotFile := none
  deriving DecidableEq, Repr

namespace Persister

def save (p : Persister) (currentTerm : Nat) (votedFor : Int)
    (log : List LogEntry) : Persister :=
  { p with hardState := some { currentTerm, votedFor, log } }

def saveSnapshot (p : Persister) (data : Bytes)
    (lastIncludedIndex lastIncludedTerm : Nat) : Persister :=
  { p with snapshotFile := some { data, lastIncludedIndex, lastIncludedTerm } }

/-- The term a node restarts in: the stored one, or `0` for a fresh node. -/
def term (p : Persister) : Nat := (p.hardState.map (·.currentTerm)).getD 0

/-- The vote a node restarts with. -/
def vote (p : Persister) : Int := (p.hardState.map (·.votedFor)).getD (-1)

/-- The log a node restarts with. -/
def log (p : Persister) : List LogEntry := (p.hardState.map (·.log)).getD []

@[simp] theorem term_save (p : Persister) (term : Nat) (vote : Int)
    (log : List LogEntry) : (p.save term vote log).term = term := rfl

@[simp] theorem vote_save (p : Persister) (term : Nat) (vote : Int)
    (log : List LogEntry) : (p.save term vote log).vote = vote := rfl

@[simp] theorem log_save (p : Persister) (term : Nat) (vote : Int)
    (log : List LogEntry) : (p.save term vote log).log = log := rfl

@[simp] theorem snapshotFile_save (p : Persister) (term : Nat) (vote : Int)
    (log : List LogEntry) : (p.save term vote log).snapshotFile = p.snapshotFile := rfl

end Persister

/-- Outcome of the storage calls made by one critical section: `none` when the
call succeeds, otherwise the text of the error it returns. -/
structure Disk where
  save : Option String := none
  saveSnapshot : Option String := none
  deriving DecidableEq, Repr

/-! ## The node record -/

/-- Leader-side replication state of one remote node. -/
structure Peer where
  id : Int
  nextIndex : Nat := 1
  matchIndex : Nat := 0
  deriving DecidableEq, Repr

/-- One node of the consensus cluster.  `electionTimer` is `none` until `Start`
creates the timer and then says whether it is armed; `commitCh` says whether the
one-slot wake-up channel is full. -/
structure Raft where
  serverId : Int
  peers : List Peer
  currentTerm : Nat := 0
  votedFor : Int := -1
  log : List LogEntry := []
  logBase : Nat := 0
  snapshot : Bytes := []
  snapshotIndex : Nat := 0
  snapshotTerm : Nat := 0
  state : State := .follower
  commitIndex : Nat := 0
  lastApplied : Nat := 0
  leaderId : Int := -1
  electionTimer : Option Bool := none
  votesReceived : Nat := 0
  applyCh : List ApplyMsg := []
  commitCh : Bool := false
  persister : Persister := {}
  snapshotThreshold : Int := 0
  shutdown : Bool := false
  deriving DecidableEq, Repr

/-- Go's `log[i]`; `none` is an index out of range, which panics at run time. -/
def entryAt (log : List LogEntry) (i : Int) : Option LogEntry :=
  if 0 ≤ i then log[i.toNat]? else none

@[simp] theorem entryAt_natCast (log : List LogEntry) (i : Nat) :
    entryAt log (i : Int) = log[i]? := by
  simp [entryAt]

theorem entryAt_of_neg {log : List LogEntry} {i : Int} (negative : i < 0) :
    entryAt log i = none := by
  simp [entryAt, Int.not_le.mpr negative]

theorem mem_of_entryAt {log : List LogEntry} {i : Int} {entry : LogEntry}
    (found : entryAt log i = some entry) : entry ∈ log := by
  rcases Int.lt_or_le i 0 with negative | nonneg
  · rw [entryAt_of_neg negative] at found
    cases found
  · rw [← Int.toNat_of_nonneg nonneg, entryAt_natCast] at found
    exact List.mem_of_getElem? found

end DistribKV
