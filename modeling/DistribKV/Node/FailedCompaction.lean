import DistribKV.Node.CrashPoints

/-!
# Compactions that fail

`Snapshot` and `InstallSnapshot` rewrite memory first and store it afterwards, and
`InstallSnapshot` queues its message for the application last.  When one of these
later steps fails, the call returns an error and memory stays rewritten.  The same
call made again finds its own work done: the guards on the log base and on the
commit index take it for a repetition and return success, and the application
never gets the snapshot.
-/

namespace DistribKV

namespace Compaction

/-- The error that the call returns, if any. -/
def error? (c : Compaction) (r : Raft) (disk : Disk) : Option String :=
  match c with
  | .snapshot index data => (r.snapshotUpTo index data disk).2
  | .installSnapshot req =>
      match (r.installSnapshot req disk).2 with
      | .error err => some err
      | .ok _ => none

/-- The bytes of the snapshot. -/
def data : Compaction → Bytes
  | .snapshot _ data => data
  | .installSnapshot req => req.data

/-- The call asks for something it cannot have: too many bytes, or an index that
is not committed or not in the log. -/
def Invalid (c : Compaction) (r : Raft) : Prop :=
  match c with
  | .snapshot index data =>
      maxSnapshotBytes < data.length ∨ r.commitIndex < index ∨
        r.logBase < index ∧
          ∀ entry, entryAt r.log ((index : Int) - r.logBase - 1) = some entry →
            entry.index ≠ index
  | .installSnapshot req => maxSnapshotBytes < req.data.length

/-- On a working disk the call succeeds and leaves its snapshot, and an
installation queues it for the application. -/
def TakesEffect (c : Compaction) (r : Raft) : Prop :=
  c.error? r {} = none ∧ (c.call r {}).snapshotIndex = c.cut ∧
    (c.call r {}).snapshot = c.data ∧
    match c with
    | .snapshot _ _ => True
    | .installSnapshot req =>
        .snapshot req.data req.lastIncludedIndex req.lastIncludedTerm ∈ (c.call r {}).applyCh

end Compaction

/-- Two states of a node agree on everything a compaction is about. -/
structure Raft.Untouched (r r' : Raft) : Prop where
  log : r'.log = r.log
  logBase : r'.logBase = r.logBase
  snapshot : r'.snapshot = r.snapshot
  snapshotIndex : r'.snapshotIndex = r.snapshotIndex
  snapshotTerm : r'.snapshotTerm = r.snapshotTerm
  commitIndex : r'.commitIndex = r.commitIndex
  lastApplied : r'.lastApplied = r.lastApplied

namespace Compaction

/-- The call leaves the node as it was, and made again on a working disk with room
on the channel it takes effect if it would have before. -/
structure Harmless (c : Compaction) (r : Raft) (disk : Disk) : Prop where
  untouched : r.Untouched (c.call r disk)
  repeatable : ∀ queue, queue.length < applyChCap →
    c.TakesEffect { r with applyCh := queue } →
    c.TakesEffect { c.call r disk with applyCh := queue }

variable {c : Compaction} {r : Raft} {disk : Disk}

/-- Validation comes before everything else. -/
theorem call_of_invalid (invalid : c.Invalid r) (disk : Disk) : c.call r disk = r := by
  cases c with
  | snapshot index data =>
      simp only [call, Raft.snapshotUpTo]
      split
      · rfl
      next small =>
        split
        · rfl
        next committed =>
          split
          · rfl
          next above =>
            have missing := (invalid.resolve_left small).resolve_left committed
            split
            · rfl
            next entry found =>
              rw [if_pos (missing.2 entry found)]
  | installSnapshot req =>
      simp only [call, Raft.installSnapshot]
      rw [if_pos (show req.data.length > maxSnapshotBytes from invalid)]

/-- A valid compaction that fails has moved the base of the log. -/
theorem logBase_of_failed {index : Nat} {data : Bytes}
    (valid : ¬ (snapshot index data).Invalid r)
    (failed : ((snapshot index data).error? r disk).isSome) :
    r.logBase < ((snapshot index data).call r disk).logBase := by
  simp only [Invalid, not_or, not_and, not_forall, not_not] at valid
  obtain ⟨small, committed, held⟩ := valid
  simp only [call, error?, Raft.snapshotUpTo, if_neg (show ¬ data.length > maxSnapshotBytes from
    small), if_neg (show ¬ index > r.commitIndex from committed)] at failed ⊢
  split at failed
  · cases failed
  next above =>
    obtain ⟨entry, found, same⟩ := held (Nat.not_le.mp above)
    simp only [if_neg above, found, same, ne_eq, not_true_eq_false, if_false, Raft.persist]
    cases disk.save with
    | some err => exact Nat.not_le.mp above
    | none =>
        cases disk.saveSnapshot with
        | some err => exact Nat.not_le.mp above
        | none => exact Nat.not_le.mp above

/-- A valid installation that fails has moved the commit index. -/
theorem commitIndex_of_failed {req : InstallSnapshotRequest}
    (valid : ¬ (installSnapshot req).Invalid r)
    (failed : ((installSnapshot req).error? r disk).isSome) :
    r.commitIndex < ((installSnapshot req).call r disk).commitIndex := by
  have installed {heard : Raft} (installs : r.Installs req heard) :
      r.commitIndex < (heard.install req).commitIndex := by
    have fresh := installs.fresh
    simp only [Raft.install, installs.yields.commitIndex]
    split <;> omega
  simp only [call, error?] at failed ⊢
  cases called : r.installSnapshot req disk with
  | mk r' reply =>
      rw [called] at failed
      cases Raft.installSnapshot_path called with
      | oversized large => exact absurd large valid
      -- the early returns answer without an error
      | stale small lower => cases failed
      | discarded hears small current useless => cases failed
      | installed hears installs => cases failed
      | unsaved hears installs => exact installed installs
      | unsavedSnapshot hears installs => exact installed installs
      | unqueued hears installs => exact installed installs

/-- A failed compaction changes nothing, and can be made again, exactly when it
failed in its validation: for every node, every call of either kind, and every way
in which storage or the channel may fail. -/
theorem failed_harmless_iff (failed : (c.error? r disk).isSome) :
    c.Harmless r disk ↔ c.Invalid r := by
  constructor
  · intro harmless
    by_contra valid
    cases c with
    | snapshot index data =>
        have moved := logBase_of_failed valid failed
        rw [harmless.untouched.logBase] at moved
        exact Nat.lt_irrefl _ moved
    | installSnapshot req =>
        have moved := commitIndex_of_failed valid failed
        rw [harmless.untouched.commitIndex] at moved
        exact Nat.lt_irrefl _ moved
  · intro invalid
    have same := call_of_invalid invalid disk
    constructor
    · rw [same]
      exact ⟨rfl, rfl, rfl, rfl, rfl, rfl, rfl⟩
    · rw [same]
      exact fun _ _ => id

/-- A follower with a snapshot of the first entry, a second one that is committed, and a
third one that is not. -/
def uncommittedTail : Raft :=
  { serverId := 1
    peers := [⟨0, 1, 0⟩, ⟨2, 1, 0⟩]
    currentTerm := 1
    log := [⟨2, 1, [2]⟩, ⟨3, 1, [3]⟩]
    logBase := 1
    snapshot := [1]
    snapshotIndex := 1
    snapshotTerm := 1
    commitIndex := 2
    lastApplied := 2
    persister := ⟨some ⟨1, -1, [⟨2, 1, [2]⟩, ⟨3, 1, [3]⟩]⟩, some ⟨[1], 1, 1⟩⟩ }

/-- `Snapshot` up to the third entry is refused before it touches anything. -/
theorem failed_harmless_beyond_commit :
    (snapshot 3 [1, 2, 3]).error? uncommittedTail { save := some "disk full" } =
        some "snapshot index 3 beyond commitIndex 2" ∧
      (snapshot 3 [1, 2, 3]).Harmless uncommittedTail { save := some "disk full" } :=
  ⟨by decide, (failed_harmless_iff (by decide)).mpr (.inr (.inl (by decide)))⟩

/-- A leader's snapshot of the first three entries. -/
def threeEntries : InstallSnapshotRequest := ⟨1, 0, 3, 1, [7]⟩

/-- A fresh follower gets a snapshot while its disk is full.  The call fails, and
memory says that the snapshot is installed and applied.  The leader sends it again
to the working disk, is answered with success, and nothing is queued. -/
theorem failed_install_swallowed :
    let r := (Node.init ⟨1, [0, 2], 1⟩ {}).raft
    let r' := (installSnapshot threeEntries).call r { save := some "disk full" }
    (installSnapshot threeEntries).error? r { save := some "disk full" } =
        some "persist raft state after InstallSnapshot: disk full" ∧
      r.commitIndex = 0 ∧ r'.commitIndex = 3 ∧ r'.lastApplied = 3 ∧
      (installSnapshot threeEntries).TakesEffect r ∧
      (installSnapshot threeEntries).error? r' {} = none ∧
      ((installSnapshot threeEntries).call r' {}).applyCh = [] ∧
      ¬ (installSnapshot threeEntries).Harmless r { save := some "disk full" } := by
  refine ⟨by decide, by decide, by decide, by decide, ⟨by decide, by decide, by decide, ?_⟩,
    by decide, by decide, ?_⟩
  · exact List.mem_of_elem_eq_true (by decide)
  · intro harmless
    exact absurd harmless.untouched.commitIndex (by decide)

end Compaction

end DistribKV
