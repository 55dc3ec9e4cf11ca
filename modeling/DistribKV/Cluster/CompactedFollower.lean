import DistribKV.Cluster.LogMatching
import DistribKV.Node.Model
import DistribKV.Raft.Follower

/-!
# Followers with a compacted log

`AppendEntries` works on slice offsets, which `Snapshot` and `InstallSnapshot`
shift by `logBase`.  A node that has folded a prefix of its log into a snapshot
should answer like the same node before folding.

It does, except at the cut itself.  A request whose previous entry is the last
one of the snapshot is refused, although `snapshotTerm` holds the term to compare
with.  A request that starts from the beginning of the log passes the consistency
check, and its first entry is looked up at a negative offset.
-/

namespace DistribKV

namespace Raft

variable {r : Raft} {req : AppendEntriesRequest} {disk : Disk}

/-! ## The same node without compaction -/

/-- The entries that the snapshot of a node stands for. -/
structure Folds (r : Raft) (folded : List LogEntry) : Prop where
  length : folded.length = r.logBase
  lastTerm : ∀ entry, folded.getLast? = some entry → entry.term = r.snapshotTerm

/-- The node as it would be had it folded nothing. -/
def uncompacted (r : Raft) (folded : List LogEntry) : Raft :=
  { r with
    log := folded ++ r.log
    logBase := 0
    snapshot := []
    snapshotIndex := 0
    snapshotTerm := 0 }

/-- The term of the entry at an absolute index of a whole log. -/
def termIn (log : List LogEntry) (index : Nat) : Option Nat :=
  log[index - 1]?.map (·.term)

/-- The request fits the whole log at its previous entry. -/
def FitsAt (whole : List LogEntry) (req : AppendEntriesRequest) : Prop :=
  req.prevLogIndex = 0 ∨ termIn whole req.prevLogIndex = some req.prevLogTerm

/-- A node answers a request like the same node without compaction: with success
exactly when the request fits the whole log, unless the log cannot be stored, and
leaving the log that the other node is left with minus the folded entries. -/
def Conforms (r : Raft) (folded : List LogEntry) (req : AppendEntriesRequest)
    (disk : Disk) : Prop :=
  ∃ r' whole' reply,
    r.appendEntries req disk = some (r', reply) ∧
    (r.uncompacted folded).appendEntries req disk = some (whole', reply) ∧
    r'.log = whole'.log.drop r.logBase ∧
    match reply with
    | .ok resp => resp.success = true ↔ FitsAt (folded ++ r.log) req
    | .error _ => disk.save.isSome

section Uncompacted

variable {folded : List LogEntry}

theorem uncompacted_prevLogOk_iff (r : Raft) (folded : List LogEntry)
    (req : AppendEntriesRequest) :
    (r.uncompacted folded).prevLogOk req = true ↔ FitsAt (folded ++ r.log) req := by
  unfold prevLogOk FitsAt termIn uncompacted
  rcases Nat.eq_zero_or_pos req.prevLogIndex with zero | positive
  · simp [zero]
  · have offset : (req.prevLogIndex : Int) - (0 : Nat) - 1 = (req.prevLogIndex - 1 : Nat) := by
      omega
    simp only [gt_iff_lt, positive, if_true, offset, entryAt_natCast]
    rw [or_iff_right positive.ne']
    cases (folded ++ r.log)[req.prevLogIndex - 1]? <;> simp

/-- Past the cut the consistency check reads the same entry. -/
theorem prevLogOk_of_above (length : folded.length = r.logBase)
    (above : r.logBase < req.prevLogIndex) :
    r.prevLogOk req = (r.uncompacted folded).prevLogOk req := by
  obtain ⟨k, position⟩ : ∃ k, req.prevLogIndex = r.logBase + k + 1 :=
    ⟨req.prevLogIndex - r.logBase - 1, by omega⟩
  have offset : ((r.logBase + k + 1 : Nat) : Int) - r.logBase - 1 = (k : Nat) := by omega
  have wholeOffset : ((r.logBase + k + 1 : Nat) : Int) - (0 : Nat) - 1 =
      (r.logBase + k : Nat) := by
    omega
  simp only [prevLogOk, uncompacted, position, offset, wholeOffset, entryAt_natCast,
    getElem?_whole length]

/-- At the cut it refuses everything. -/
theorem prevLogOk_at_cut (compacted : 0 < r.logBase)
    (atCut : req.prevLogIndex = r.logBase) : r.prevLogOk req = false := by
  by_contra accepted
  obtain ⟨k, -, position, -⟩ :=
    entry_of_prevLogOk (Bool.of_not_eq_false accepted) (by omega)
  omega

/-- The last folded entry is where the whole log is cut. -/
theorem Folds.fitsAt_cut_iff (folds : r.Folds folded) (compacted : 0 < r.logBase)
    (atCut : req.prevLogIndex = r.logBase) :
    FitsAt (folded ++ r.log) req ↔ req.prevLogTerm = r.snapshotTerm := by
  have length := folds.length
  have bound : folded.length - 1 < folded.length := by omega
  have last := folds.lastTerm folded[folded.length - 1] (by
    rw [List.getLast?_eq_getElem?, List.getElem?_eq_getElem bound])
  have term : termIn (folded ++ r.log) req.prevLogIndex = some r.snapshotTerm := by
    rw [termIn, atCut, ← length, List.getElem?_append_left bound,
      List.getElem?_eq_getElem bound, Option.map_some, last]
  rw [FitsAt, or_iff_right (by omega), term, Option.some.injEq, eq_comm]

/-- The loop takes the same decisions on the whole log. -/
theorem appendLoop_whole {log : List LogEntry} {base prevLogIndex : Nat}
    (entries : List LogEntry) (length : folded.length = base) (lower : base ≤ prevLogIndex)
    (upper : prevLogIndex ≤ base + log.length) :
    appendLoop 0 prevLogIndex 0 entries (folded ++ log, false) =
      (appendLoop base prevLogIndex 0 entries (log, false)).map
        fun result => (folded ++ result.1, result.2) := by
  have whole : prevLogIndex + 0 ≤ 0 + (folded ++ log).length := by
    rw [List.length_append]
    omega
  obtain ⟨offset, rfl⟩ := Nat.exists_eq_add_of_le lower
  have inside : base ≤ base + offset + 0 := lower
  rw [appendLoop_eq (Nat.zero_le _) whole, appendLoop_eq inside upper]
  simp only [Nat.add_zero, Nat.sub_zero, Nat.add_sub_cancel_left, drop_whole length,
    Option.map_some, Nat.add_assoc base, take_whole length]
  split
  · rfl
  · rw [List.append_assoc]

/-- Nodes that decide alike at the previous entry answer alike. -/
theorem Folds.conforms (folds : r.Folds folded) (current : r.currentTerm ≤ req.term)
    (lower : r.logBase ≤ req.prevLogIndex)
    (upper : req.prevLogIndex ≤ r.logBase + r.log.length)
    (alike : r.prevLogOk req = (r.uncompacted folded).prevLogOk req) :
    r.Conforms folded req disk := by
  have seen := appendEntries_log_reply disk current
  have seenWhole := appendEntries_log_reply (r := r.uncompacted folded) disk current
  have fits := uncompacted_prevLogOk_iff r folded req
  rw [← alike] at seenWhole fits
  obtain ⟨log, reply, left, leftWhole, answer⟩ : ∃ log reply,
      (r.appendEntries req disk).map (fun result => (result.1.log, result.2)) =
        some (log, reply) ∧
      ((r.uncompacted folded).appendEntries req disk).map
        (fun result => (result.1.log, result.2)) = some (folded ++ log, reply) ∧
      match reply with
      | .ok resp => resp.success = true ↔ FitsAt (folded ++ r.log) req
      | .error _ => disk.save.isSome := by
    cases consistent : r.prevLogOk req with
    | false =>
        rw [consistent] at seen seenWhole fits
        exact ⟨_, _, seen, seenWhole, fits⟩
    | true =>
        obtain ⟨⟨log, modified⟩, loop⟩ :
            ∃ result, appendLoop r.logBase req.prevLogIndex 0 req.entries (r.log, false) =
              some result :=
          ⟨_, appendLoop_eq lower upper⟩
        have loopWhole := appendLoop_whole req.entries folds.length lower upper
        rw [consistent, if_pos rfl, loop] at seen
        rw [consistent, if_pos rfl, show (r.uncompacted folded).logBase = 0 from rfl,
          show (r.uncompacted folded).log = folded ++ r.log from rfl, loopWhole, loop] at seenWhole
        refine ⟨_, _, seen, seenWhole, ?_⟩
        cases modified <;> cases stored : disk.save <;>
          simp [appendReply, stored, fits.mp consistent]
  obtain ⟨⟨r', reply⟩, called, same⟩ := Option.map_eq_some_iff.mp left
  obtain ⟨⟨whole', reply'⟩, calledWhole, sameWhole⟩ := Option.map_eq_some_iff.mp leftWhole
  cases same
  obtain ⟨logWhole, rfl⟩ := Prod.mk.inj sameWhole
  refine ⟨r', whole', _, called, calledWhole, ?_, answer⟩
  rw [show whole'.log = folded ++ r'.log from logWhole, ← folds.length, List.drop_left]

/-- A node with a compacted log answers every current request that starts at or
past its cut like the same node without compaction, exactly when the request does
not name the last folded entry as its previous entry with the term that entry
has. -/
theorem appendEntries_conforms_iff (folds : r.Folds folded)
    (current : r.currentTerm ≤ req.term) (lower : r.logBase ≤ req.prevLogIndex)
    (upper : req.prevLogIndex ≤ r.logBase + r.log.length) :
    r.Conforms folded req disk ↔
      r.logBase = 0 ∨ req.prevLogIndex ≠ r.logBase ∨ req.prevLogTerm ≠ r.snapshotTerm := by
  rcases Nat.eq_zero_or_pos r.logBase with uncut | compacted
  · -- nothing is folded
    obtain rfl : folded = [] := List.eq_nil_of_length_eq_zero (folds.length.trans uncut)
    have alike : r.prevLogOk req = (r.uncompacted []).prevLogOk req := by
      simp only [prevLogOk, uncompacted, uncut, List.nil_append]
    simp only [uncut, true_or, iff_true]
    exact folds.conforms current lower upper alike
  rw [or_iff_right compacted.ne']
  rcases Nat.lt_or_eq_of_le lower with above | atCut
  · simp only [ne_eq, above.ne', not_false_eq_true, true_or, iff_true]
    exact folds.conforms current lower upper (prevLogOk_of_above folds.length above)
  have refused := prevLogOk_at_cut compacted atCut.symm
  have fits := folds.fitsAt_cut_iff compacted atCut.symm
  rw [or_iff_right (by simpa using atCut.symm)]
  constructor
  · -- a refusal is right only for a request that does not fit
    rintro ⟨r', whole', reply, called, -, -, answer⟩ sameTerm
    have seen := appendEntries_log_reply disk current
    rw [called, refused] at seen
    obtain ⟨-, rfl⟩ := Prod.mk.inj (Option.some.inj seen)
    exact absurd (answer.mpr (fits.mpr sameTerm)) (by simp)
  · intro otherTerm
    refine folds.conforms current lower upper (refused.trans (Eq.symm ?_))
    rw [← Bool.not_eq_true, uncompacted_prevLogOk_iff, fits]
    exact otherTerm

/-- A request past the cut of a node that has folded one of its two entries. -/
theorem appendEntries_conforms_past_cut :
    ({ serverId := 1, peers := [], currentTerm := 1, log := [⟨2, 1, [2]⟩], logBase := 1,
        snapshotIndex := 1, snapshotTerm := 1 } : Raft).Conforms [⟨1, 1, [1]⟩]
      ⟨1, 0, 2, 1, [⟨3, 1, [3]⟩], 0⟩ {} :=
  (appendEntries_conforms_iff ⟨rfl, by simp⟩ (by decide) (by decide) (by decide)).mpr
    (.inr (.inl (by decide)))

/-- A follower stores and applies the first entry and compacts its log up to
it. -/
def compactFirst : List NodeAction :=
  [.appendEntries ⟨1, 0, 0, 0, [⟨1, 1, [1]⟩], 1⟩ {}, .takeEntry, .sendEntry, .consume,
    .snapshot 1 [] {}]

/-- The request that brings the second entry fits its whole log, and is refused. -/
theorem refused_at_cut :
    ∃ n, Consensus.Run Node.step (fun _ _ => True) (Node.init ⟨1, [0, 2], 1⟩ {}) n ∧
      n.raft.Folds [⟨1, 1, [1]⟩] ∧ n.raft.currentTerm = 1 ∧ n.raft.logBase = 1 ∧
      FitsAt ([⟨1, 1, [1]⟩] ++ n.raft.log) ⟨1, 0, 1, 1, [⟨2, 1, [2]⟩], 1⟩ ∧
      (n.raft.appendEntries ⟨1, 0, 1, 1, [⟨2, 1, [2]⟩], 1⟩ {}).map Prod.snd =
        some (.ok ⟨1, false⟩) ∧
      ¬ n.raft.Conforms [⟨1, 1, [1]⟩] ⟨1, 0, 1, 1, [⟨2, 1, [2]⟩], 1⟩ {} := by
  obtain ⟨n, run, term, base, snapshotTerm, refused⟩ :
      ∃ n, Consensus.Run Node.step (fun _ _ => True) (Node.init ⟨1, [0, 2], 1⟩ {}) n ∧
        n.raft.currentTerm = 1 ∧ n.raft.logBase = 1 ∧ n.raft.snapshotTerm = 1 ∧
        (n.raft.appendEntries ⟨1, 0, 1, 1, [⟨2, 1, [2]⟩], 1⟩ {}).map Prod.snd =
          some (.ok ⟨1, false⟩) :=
    Consensus.exists_run_of_perform compactFirst _ (by decide +kernel)
  have fits : FitsAt ([⟨1, 1, [1]⟩] ++ n.raft.log) ⟨1, 0, 1, 1, [⟨2, 1, [2]⟩], 1⟩ := .inr rfl
  refine ⟨n, run, ⟨base.symm, by simp [snapshotTerm]⟩, term, base, fits, refused, ?_⟩
  rintro ⟨r', whole', reply, called, -, -, answer⟩
  rw [called, Option.map_some, Option.some.injEq] at refused
  subst refused
  exact absurd (answer.mpr fits) (by simp)

end Uncompacted

/-! ## Offsets in range -/

/-- The loop goes out of range exactly when its first entry lies below the base. -/
theorem appendLoop_isSome_iff (consistent : r.prevLogOk req = true) :
    (appendLoop r.logBase req.prevLogIndex 0 req.entries (r.log, false)).isSome ↔
      0 < req.prevLogIndex ∨ r.logBase = 0 ∨ req.entries = [] := by
  constructor
  · intro returns
    by_contra out
    simp only [not_or, Nat.pos_iff_ne_zero, not_not] at out
    obtain ⟨start, compacted, some⟩ := out
    obtain ⟨entry, rest, sent⟩ := List.exists_cons_of_ne_nil some
    have negative : ((req.prevLogIndex + 0 + 1 : Nat) : Int) - r.logBase - 1 < 0 := by
      omega
    rw [sent, appendLoop, if_pos (by omega), entryAt_of_neg negative] at returns
    cases returns
  · intro inRange
    rcases Nat.lt_or_ge req.prevLogIndex r.logBase with below | inside
    · -- only an empty request may lie below the base
      have empty : req.entries = [] := by
        rcases reach_of_prevLogOk consistent with start | ⟨above, -⟩
        · exact (inRange.resolve_left (by omega)).resolve_left (by omega)
        · omega
      rw [empty]
      rfl
    · have upper : req.prevLogIndex ≤ r.logBase + r.log.length := by
        rcases reach_of_prevLogOk consistent with start | ⟨-, upper⟩
        · omega
        · exact upper
      rw [appendLoop_eq inside upper]
      rfl

/-- `AppendEntries` accesses its log in range exactly when the request is stale,
names a previous entry, carries nothing, or finds the log uncompacted.  This holds
for every node, every request and every disk. -/
theorem appendEntries_in_range_iff (r : Raft) (req : AppendEntriesRequest) (disk : Disk) :
    (r.appendEntries req disk).isSome ↔
      req.term < r.currentTerm ∨ 0 < req.prevLogIndex ∨ r.logBase = 0 ∨
        req.entries = [] := by
  rcases Nat.lt_or_ge req.term r.currentTerm with stale | current
  · rw [appendEntries, if_pos stale]
    simp [stale]
  · have same : (r.appendEntries req disk).isSome = _ :=
      (Option.isSome_map ..).symm.trans (congrArg Option.isSome
        (appendEntries_log_reply disk current))
    rw [same, or_iff_right (Nat.not_lt.mpr current)]
    cases consistent : r.prevLogOk req with
    | true =>
        rw [if_pos rfl, Option.isSome_map]
        exact appendLoop_isSome_iff consistent
    | false =>
        -- a refused request names a previous entry
        have positive : 0 < req.prevLogIndex := by
          by_contra start
          simp [prevLogOk, start] at consistent
        simp [positive]

end Raft

namespace Cluster

open Consensus

/-- Node `1` commits the first command, compacts its log up to it, and then gets a
second copy of the request that brought the command. -/
def delayedCopy : List Action :=
  election ++
    [.replicate 0 [7] {}, .sendAppendEntries 0 1 1 0,
      .duplicate (.appendEntries 0 1 ⟨1, 0, 0, 0, [⟨1, 1, [7]⟩], 0⟩),
      .receive (.appendEntries 0 1 ⟨1, 0, 0, 0, [⟨1, 1, [7]⟩], 0⟩) {},
      .receive (.appendEntriesReply 0 1 ⟨1, 0, 0, 0, [⟨1, 1, [7]⟩], 0⟩ ⟨1, true⟩) {},
      .heartbeat 0, .sendAppendEntries 0 1 1 1,
      .receive (.appendEntries 0 1 ⟨1, 0, 1, 1, [], 1⟩) {},
      .takeEntry 1, .sendEntry 1, .consume 1, .snapshot 1 1 [] {}]

/-- The handler then reads its log at offset `-1`. -/
theorem delayed_copy_out_of_range :
    ∃ s, Run (step threeNodes) (fun _ _ => True) (init threeNodes 1) s ∧
      .appendEntries 0 1 ⟨1, 0, 0, 0, [⟨1, 1, [7]⟩], 0⟩ ∈ s.net ∧
      (s.node 1).logBase = 1 ∧
      (s.node 1).appendEntries ⟨1, 0, 0, 0, [⟨1, 1, [7]⟩], 0⟩ {} = none :=
  exists_run_of_perform delayedCopy _ (by decide +kernel)

end Cluster

end DistribKV
