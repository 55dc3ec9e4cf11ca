import DistribKV.Node.Pipeline

/-!
# Crashes during a compaction

`Snapshot` and `InstallSnapshot` write two files, the raft state first and the
snapshot after it.  Each write is atomic, the pair is not.  A crash between them
leaves a log that starts past the old snapshot, and `NewRaft` reads it as the log
that follows the old snapshot.

The files a crash leaves are those of a call whose next write fails; what the call
does to memory after that is lost with the process.
-/

namespace DistribKV

/-- Where a compacting call is interrupted. -/
inductive CrashPoint where
  | beforeWrites
  | betweenWrites
  | afterWrites
  deriving DecidableEq, Repr

/-- The writes of a call that is interrupted there. -/
def CrashPoint.disk : CrashPoint → Disk
  | .beforeWrites => { save := some "crash" }
  | .betweenWrites => { saveSnapshot := some "crash" }
  | .afterWrites => {}

/-- A call that compacts the log. -/
inductive Compaction where
  | snapshot (index : Nat) (data : Bytes)
  | installSnapshot (req : InstallSnapshotRequest)
  deriving DecidableEq, Repr

/-- Position of the stored snapshot, `0` when there is none. -/
def Persister.base (p : Persister) : Nat :=
  (p.snapshotFile.map (·.lastIncludedIndex)).getD 0

namespace Compaction

/-- The index up to which the call compacts the log. -/
def cut : Compaction → Nat
  | .snapshot index _ => index
  | .installSnapshot req => req.lastIncludedIndex

/-- The node after the call. -/
def call (c : Compaction) (r : Raft) (disk : Disk) : Raft :=
  match c with
  | .snapshot index data => (r.snapshotUpTo index data disk).1
  | .installSnapshot req => (r.installSnapshot req disk).1

/-- The node `NewRaft` builds from the files that a crash during the call leaves. -/
def rebuilt (c : Compaction) (r : Raft) (point : CrashPoint) : Raft :=
  Raft.newRaft r.config (c.call r point.disk).persister

/-- The call gets past its guards. -/
def Passes (c : Compaction) (r : Raft) : Prop :=
  match c with
  | .snapshot index data =>
      data.length ≤ maxSnapshotBytes ∧ r.logBase < index ∧ index ≤ r.commitIndex
  | .installSnapshot req => r.Admits req

end Compaction

namespace Raft

/-- The two files mirror the memory of a node that is in order: its log is numbered
from its base on and reaches the commit index. -/
structure Consistent (r : Raft) : Prop where
  placed : r.Placed
  reaches : r.commitIndex ≤ r.logBase + r.log.length
  log : r.persister.log = r.log
  base : r.persister.base = r.logBase
  stored : r.persister.snapshotFile.isSome → r.persister.hardState.isSome

/-- A node whose log starts where its snapshot ends, and which together reach an
index. -/
structure Intact (r : Raft) (upTo : Nat) : Prop where
  based : r.logBase = r.snapshotIndex
  aligned : Aligned r.logBase r.log
  covers : upTo ≤ r.logBase + r.log.length

/-- What `NewRaft` reads from the two files. -/
theorem newRaft_reads (cfg : Config) {p : Persister}
    (stored : p.snapshotFile.isSome → p.hardState.isSome) :
    (newRaft cfg p).logBase = p.base ∧ (newRaft cfg p).snapshotIndex = p.base ∧
      (newRaft cfg p).log = p.log := by
  cases file : p.snapshotFile with
  | none =>
      rw [newRaft_of_noSnapshot cfg file]
      simp [fresh, Persister.base, file]
  | some snapshotFile =>
      rw [newRaft_of_snapshot cfg (stored (by simp [file])) file]
      simp [Persister.base, file]

theorem intact_newRaft_iff (cfg : Config) {p : Persister} {upTo : Nat}
    (stored : p.snapshotFile.isSome → p.hardState.isSome) :
    (newRaft cfg p).Intact upTo ↔ Aligned p.base p.log ∧ upTo ≤ p.base + p.log.length := by
  obtain ⟨base, index, log⟩ := newRaft_reads cfg stored
  constructor
  · rintro ⟨-, aligned, covers⟩
    rw [base, log] at aligned covers
    exact ⟨aligned, covers⟩
  · rintro ⟨aligned, covers⟩
    rw [← base, ← log] at aligned covers
    exact ⟨base.trans index.symm, aligned, covers⟩

end Raft

namespace Compaction

variable {c : Compaction} {r : Raft} {point : CrashPoint}

/-- A call that does not pass its guards writes nothing. -/
theorem call_persister_of_refused (refused : ¬ c.Passes r) (disk : Disk) :
    (c.call r disk).persister = r.persister := by
  cases c with
  | snapshot index data =>
      simp only [call, Raft.snapshotUpTo]
      split
      · rfl
      next small =>
        split
        · rfl
        next committed =>
          split
          · rfl
          next above =>
            exact absurd ⟨Nat.not_lt.mp small, Nat.not_le.mp above, Nat.not_lt.mp committed⟩
              refused
  | installSnapshot req =>
      have yields := Raft.Yields.hearSnapshot r req
      simp only [call, Raft.installSnapshot]
      split
      · rfl
      next small =>
        split
        · rfl
        next current =>
          split
          · exact yields.persister
          next fresh =>
            split
            · exact yields.persister
            next agrees =>
              refine absurd ⟨Nat.not_lt.mp small, Nat.not_lt.mp current, ?_, ?_⟩ refused
              · rw [← yields.commitIndex]
                exact Nat.not_le.mp fresh
              · simpa only [Raft.contradicts, yields.log, yields.logBase, Bool.not_eq_true]
                  using agrees

/-- The files that a call leaves which passes its guards. -/
theorem call_persister_of_passes (consistent : r.Consistent) (passes : c.Passes r)
    (point : CrashPoint) :
    ∃ term vote data snapshotTerm, (c.call r point.disk).persister =
      match point with
      | .beforeWrites => r.persister
      | .betweenWrites => r.persister.save term vote (r.log.drop (c.cut - r.logBase))
      | .afterWrites =>
          (r.persister.save term vote (r.log.drop (c.cut - r.logBase))).saveSnapshot data
            c.cut snapshotTerm := by
  have aligned := consistent.placed.aligned
  cases c with
  | snapshot index data =>
      obtain ⟨small, above, committed⟩ := passes
      have reaches := consistent.reaches
      obtain ⟨k, rfl⟩ : ∃ k, index = r.logBase + k + 1 :=
        ⟨index - r.logBase - 1, by omega⟩
      have offset : ((r.logBase + k + 1 : Nat) : Int) - r.logBase - 1 = (k : Nat) := by omega
      have inLog : k < r.log.length := by omega
      have found := List.getElem?_eq_getElem inLog
      refine ⟨r.currentTerm, r.votedFor, data, r.log[k].term, ?_⟩
      rw [call, Raft.snapshotUpTo, if_neg (Nat.not_lt.mpr small),
        if_neg (Nat.not_lt.mpr committed), if_neg (Nat.not_le.mpr above)]
      simp only [offset, entryAt_natCast, found, aligned k _ found, ne_eq,
        not_true_eq_false, if_false]
      cases point <;> rfl
  | installSnapshot req =>
      obtain ⟨small, current, fresh, agrees⟩ := passes
      have yields := Raft.Yields.hearSnapshot r req
      have above : r.logBase ≤ req.lastIncludedIndex :=
        Nat.le_trans consistent.placed.based (Nat.le_of_lt fresh)
      have tail : (r.hearSnapshot req).log.filter
          (fun entry => decide (entry.index > req.lastIncludedIndex)) =
            r.log.drop (req.lastIncludedIndex - r.logBase) := by
        rw [yields.log, aligned.filter_eq_drop above]
      have heardAgrees : (r.hearSnapshot req).contradicts req = false := by
        rw [← agrees]
        simp only [Raft.contradicts, yields.log, yields.logBase]
      refine ⟨(r.hearSnapshot req).currentTerm, (r.hearSnapshot req).votedFor, req.data,
        req.lastIncludedTerm, ?_⟩
      rw [call, Raft.installSnapshot, if_neg (Nat.not_lt.mpr small),
        if_neg (Nat.not_lt.mpr current)]
      simp only [yields.commitIndex, Nat.not_le.mpr fresh, if_false, heardAgrees,
        Bool.false_eq_true]
      cases point with
      | beforeWrites => exact yields.persister
      | betweenWrites =>
          simp only [Raft.persist, CrashPoint.disk, Raft.saved, Raft.install, tail,
            yields.persister, cut]
      | afterWrites =>
          simp only [Raft.persist, CrashPoint.disk]
          -- the files are written before the channel is found to have room or not
          split <;> simp only [Raft.saved, Raft.savedSnapshot, Raft.install, tail,
            yields.persister, cut]

/-- The cut lies past the old snapshot. -/
theorem Passes.past (passes : c.Passes r) (consistent : r.Consistent) : r.logBase < c.cut := by
  cases c with
  | snapshot index data => exact passes.2.1
  | installSnapshot req => exact Nat.lt_of_le_of_lt consistent.placed.based passes.2.2.1

/-- The tail past the cut, read behind the old snapshot, is in order only when it
is empty and the old snapshot already reaches the commit index. -/
theorem tail_behind_old_base (consistent : r.Consistent) (past : r.logBase < c.cut) :
    (Aligned r.logBase (r.log.drop (c.cut - r.logBase)) ∧
        r.commitIndex ≤ r.logBase + (r.log.drop (c.cut - r.logBase)).length) ↔
      ¬ (c.cut < r.logBase + r.log.length ∨ r.logBase < r.commitIndex) := by
  rw [List.length_drop]
  have tail := consistent.placed.aligned.drop (c.cut - r.logBase)
  constructor
  · rintro ⟨aligned, covers⟩
    have short : r.logBase + r.log.length ≤ c.cut := by
      by_contra longer
      -- the first entry past the cut would have to carry two indices
      have inTail : 0 < (r.log.drop (c.cut - r.logBase)).length := by
        rw [List.length_drop]
        omega
      have first := List.getElem?_eq_getElem inTail
      have index := aligned 0 _ first
      have index' := tail 0 _ first
      omega
    omega
  · intro quiet
    have empty : r.log.drop (c.cut - r.logBase) = [] := List.drop_eq_nil_of_le (by omega)
    rw [empty]
    exact ⟨.nil, by omega⟩

/-- Compaction survives a crash exactly when the crash does not come between the
two writes, or the call is refused, or there is nothing to lose: no entry past the
cut, and nothing committed above the old snapshot. -/
theorem rebuilt_intact_iff (consistent : r.Consistent) (c : Compaction)
    (point : CrashPoint) :
    (c.rebuilt r point).Intact r.commitIndex ↔
      ¬ (point = .betweenWrites ∧ c.Passes r ∧
        (c.cut < r.logBase + r.log.length ∨ r.logBase < r.commitIndex)) := by
  have untouched : (Raft.newRaft r.config r.persister).Intact r.commitIndex := by
    rw [Raft.intact_newRaft_iff _ consistent.stored, consistent.base, consistent.log]
    exact ⟨consistent.placed.aligned, consistent.reaches⟩
  by_cases passes : c.Passes r
  · have past := passes.past consistent
    obtain ⟨term, vote, data, snapshotTerm, files⟩ :=
      call_persister_of_passes consistent passes point
    rw [rebuilt, files]
    cases point with
    | beforeWrites => simpa using untouched
    | betweenWrites =>
        rw [Raft.intact_newRaft_iff _ (by simp [Persister.save])]
        simp only [passes, true_and]
        exact consistent.base ▸ tail_behind_old_base consistent past
    | afterWrites =>
        rw [Raft.intact_newRaft_iff _ (by simp [Persister.save, Persister.saveSnapshot])]
        have tail := consistent.placed.aligned.drop (c.cut - r.logBase)
        have reaches := consistent.reaches
        rw [Nat.add_sub_of_le (Nat.le_of_lt past)] at tail
        simp only [reduceCtorEq, false_and, not_false_eq_true, iff_true]
        refine ⟨tail, ?_⟩
        change r.commitIndex ≤ c.cut + (r.log.drop (c.cut - r.logBase)).length
        rw [List.length_drop]
        omega
  · rw [rebuilt, call_persister_of_refused passes]
    simpa [passes] using untouched

/-- A node with two committed entries that has folded the first one. -/
def foldedNode : Raft :=
  { serverId := 1
    peers := []
    log := [⟨2, 1, [2]⟩]
    logBase := 1
    snapshotIndex := 1
    snapshotTerm := 1
    commitIndex := 2
    persister := ⟨some ⟨1, -1, [⟨2, 1, [2]⟩]⟩, some ⟨[], 1, 1⟩⟩ }

/-- It survives a crash after both writes of its next compaction. -/
theorem rebuilt_intact_after_writes :
    ((Compaction.snapshot 2 []).rebuilt foldedNode .afterWrites).Intact 2 :=
  (rebuilt_intact_iff (r := foldedNode)
    ⟨⟨by decide, by decide⟩, by decide, rfl, rfl, fun _ => rfl⟩ _ _).mpr (by simp)

/-- A follower stores two entries and takes both to be committed. -/
def twoCommitted : List NodeAction :=
  [.appendEntries ⟨1, 0, 0, 0, [⟨1, 1, [1]⟩, ⟨2, 1, [2]⟩], 2⟩ {}]

/-- When it crashes between the two writes of `Snapshot(1)`, the entry at index `2`
becomes the first of its log, and index `2` is lost. -/
theorem torn_snapshot :
    ∃ n, Consensus.Run Node.step (fun _ _ => True) (Node.init ⟨1, [0, 2], 1⟩ {}) n ∧
      n.raft.Consistent ∧ n.raft.commitIndex = 2 ∧
      ((Compaction.snapshot 1 []).rebuilt n.raft .betweenWrites).logBase = 0 ∧
      ((Compaction.snapshot 1 []).rebuilt n.raft .betweenWrites).log = [⟨2, 1, [2]⟩] ∧
      ¬ ((Compaction.snapshot 1 []).rebuilt n.raft .betweenWrites).Intact
        n.raft.commitIndex := by
  obtain ⟨n, run, aligned, base, commit, log, persister, rebuiltBase, rebuiltLog⟩ :
      ∃ n, Consensus.Run Node.step (fun _ _ => True) (Node.init ⟨1, [0, 2], 1⟩ {}) n ∧
        Aligned n.raft.logBase n.raft.log ∧ n.raft.logBase = 0 ∧ n.raft.commitIndex = 2 ∧
        n.raft.log.length = 2 ∧
        n.raft.persister = ⟨some ⟨1, -1, n.raft.log⟩, none⟩ ∧
        ((Compaction.snapshot 1 []).rebuilt n.raft .betweenWrites).logBase = 0 ∧
        ((Compaction.snapshot 1 []).rebuilt n.raft .betweenWrites).log = [⟨2, 1, [2]⟩] :=
    Consensus.exists_run_of_perform twoCommitted _ (by decide +kernel)
  refine ⟨n, run, ⟨⟨aligned, by omega⟩, by omega, ?_, ?_, ?_⟩, commit, rebuiltBase, rebuiltLog,
    ?_⟩
  · rw [persister]
    rfl
  · rw [persister, base]
    rfl
  · simp [persister]
  · intro intact
    have first := intact.aligned
    rw [rebuiltBase, rebuiltLog] at first
    exact absurd first (by decide)

end Compaction

end DistribKV
