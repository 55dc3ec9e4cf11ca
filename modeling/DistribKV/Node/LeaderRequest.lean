import DistribKV.Node.Model
import DistribKV.Raft.Log

/-!
# What a leader's request says about its log

A request to append should carry the position before `nextIndex`, the term of the
entry there, and every entry from `nextIndex` on.  `sendAppendEntries` compares
absolute indices with the length of the retained log, so this holds without a
snapshot, and after one only when there is nothing to send.
-/

namespace DistribKV

namespace Raft

/-- The term of the whole log at an index: that of the entry there, of the
snapshot at its end, and `0` before the first entry. -/
def termAt (r : Raft) (index : Nat) : Nat :=
  if index = 0 then 0
  else if index = r.logBase then r.snapshotTerm
  else ((entryAt r.log ((index : Int) - r.logBase - 1)).map (·.term)).getD 0

/-- The request describes the log exactly from `nextIndex` on. -/
structure Describes (r : Raft) (nextIndex : Nat) (req : AppendEntriesRequest) : Prop where
  prevLogIndex : req.prevLogIndex = nextIndex - 1
  prevLogTerm : req.prevLogTerm = r.termAt (nextIndex - 1)
  entries : req.entries = r.log.filter fun entry => decide (entry.index ≥ nextIndex)

variable {r : Raft} {nextIndex : Nat}

/-- The entries from `nextIndex` on are the end of an aligned log. -/
theorem filter_from (aligned : Aligned r.logBase r.log) (above : r.logBase < nextIndex) :
    (r.log.filter fun entry => decide (entry.index ≥ nextIndex)) =
      r.log.drop (nextIndex - r.logBase - 1) := by
  have dropped := aligned.filter_eq_drop (n := nextIndex - 1) (by omega)
  rw [Nat.sub_right_comm, ← dropped]
  apply List.filter_congr
  intro entry _
  simp only [decide_eq_decide]
  omega

/-- At the snapshot the previous entry is not retained and the request starts
over. -/
theorem appendEntriesRequest_at_base (term commitIdx : Nat) (based : 0 < r.logBase) :
    (r.appendEntriesRequest (r.logBase + 1) term commitIdx).prevLogIndex = 0 := by
  have missing : entryAt r.log (-1) = none := entryAt_of_neg (by decide)
  simp [appendEntriesRequest, based, missing]

/-- Past the snapshot the request has the right position, and entries up to an
absolute index that is the length of the retained log. -/
theorem appendEntriesRequest_past_base (term commitIdx : Nat)
    (above : r.logBase + 1 < nextIndex) (le : nextIndex ≤ r.logBase + r.log.length + 1) :
    (r.appendEntriesRequest nextIndex term commitIdx).prevLogIndex = nextIndex - 1 ∧
      (r.appendEntriesRequest nextIndex term commitIdx).prevLogTerm =
        r.termAt (nextIndex - 1) ∧
      (r.appendEntriesRequest nextIndex term commitIdx).entries =
        (r.log.drop (nextIndex - r.logBase - 1)).take (r.log.length + 1 - nextIndex) := by
  obtain ⟨k, rfl⟩ : ∃ k, nextIndex = r.logBase + k + 2 :=
    ⟨nextIndex - r.logBase - 2, by omega⟩
  have inside : k < r.log.length := by omega
  have offset : ((r.logBase + k + 1 : Nat) : Int) - r.logBase - 1 = (k : Nat) := by omega
  have found : entryAt r.log (((r.logBase + k + 1 : Nat) : Int) - r.logBase - 1) =
      some r.log[k] := by
    rw [offset, entryAt_natCast, List.getElem?_eq_getElem inside]
  have before : r.logBase + k + 2 - 1 = r.logBase + k + 1 := rfl
  have positive : r.logBase + k + 1 > 0 := Nat.succ_pos _
  simp only [appendEntriesRequest, before, positive, ↓reduceIte, found]
  refine ⟨trivial, ?_, collectEntries_eq r.log (by omega) _⟩
  have past : r.logBase + k + 1 ≠ r.logBase := by omega
  simp only [termAt, positive.ne', past, ↓reduceIte, found, Option.map_some, Option.getD_some]

/-- From the first entry on the request carries the whole log. -/
theorem appendEntriesRequest_from_start (r : Raft) (term commitIdx : Nat) :
    (r.appendEntriesRequest 1 term commitIdx).prevLogIndex = 0 ∧
      (r.appendEntriesRequest 1 term commitIdx).prevLogTerm = 0 ∧
      (r.logBase = 0 →
        (r.appendEntriesRequest 1 term commitIdx).entries = r.log) := by
  refine ⟨rfl, rfl, fun noBase => ?_⟩
  simp only [appendEntriesRequest, Nat.sub_self, Nat.lt_irrefl, gt_iff_lt, if_false,
    Nat.add_sub_cancel]
  rw [collectEntries_eq r.log (by omega), noBase]
  simp

/-- Past the snapshot the request is exact when there is no snapshot or nothing to
send: the loop stops at the length of the retained log. -/
theorem describes_past_base_iff (aligned : Aligned r.logBase r.log) (term commitIdx : Nat)
    (above : r.logBase + 1 < nextIndex) (le : nextIndex ≤ r.logBase + r.log.length + 1) :
    r.Describes nextIndex (r.appendEntriesRequest nextIndex term commitIdx) ↔
      r.logBase = 0 ∨ nextIndex = r.logBase + r.log.length + 1 := by
  obtain ⟨prevLogIndex, prevLogTerm, collected⟩ :=
    appendEntriesRequest_past_base term commitIdx above le
  have exact_iff : r.Describes nextIndex (r.appendEntriesRequest nextIndex term commitIdx) ↔
      (r.log.drop (nextIndex - r.logBase - 1)).length ≤ r.log.length + 1 - nextIndex := by
    rw [← List.take_eq_self_iff, ← collected, ← filter_from aligned (by omega)]
    exact ⟨fun described => described.entries, fun all => ⟨prevLogIndex, prevLogTerm, all⟩⟩
  rw [exact_iff, List.length_drop]
  omega

/-- Right after the snapshot the request is exact only if there is none. -/
theorem describes_at_base_iff (aligned : Aligned r.logBase r.log) (term commitIdx : Nat) :
    r.Describes (r.logBase + 1) (r.appendEntriesRequest (r.logBase + 1) term commitIdx) ↔
      r.logBase = 0 := by
  constructor
  · intro described
    by_contra based
    have wrong := described.prevLogIndex
    rw [appendEntriesRequest_at_base _ _ (Nat.pos_of_ne_zero based)] at wrong
    exact based wrong.symm
  · intro noBase
    obtain ⟨prevLogIndex, prevLogTerm, all⟩ :=
      appendEntriesRequest_from_start r term commitIdx
    have entries := filter_from aligned (Nat.lt_succ_self _)
    rw [noBase] at entries ⊢
    exact ⟨prevLogIndex, prevLogTerm, (all noBase).trans entries.symm⟩

/-- A leader's request describes its log exactly when the leader has no snapshot,
or retains entries and has nothing to send. -/
theorem request_describes_log_iff {peer : Peer} {peerId : Int} {commitIdx : Nat}
    (leads : r.state = .leader) (running : r.shutdown = false) (aligned : Aligned r.logBase r.log)
    (found : r.peer? peerId = some peer) (above : r.logBase < peer.nextIndex)
    (le : peer.nextIndex ≤ r.logBase + r.log.length + 1) :
    ∃ req, r.sendAppendEntries peerId r.currentTerm commitIdx = .request req ∧
      (r.Describes peer.nextIndex req ↔ r.logBase = 0 ∨
        r.log ≠ [] ∧ peer.nextIndex = r.logBase + r.log.length + 1) := by
  have sent : r.sendAppendEntries peerId r.currentTerm commitIdx =
      .request (r.appendEntriesRequest peer.nextIndex r.currentTerm commitIdx) := by
    have first : ¬ peer.nextIndex < 1 := by omega
    have covered : ¬ peer.nextIndex - 1 < r.logBase := by omega
    simp [sendAppendEntries, found, leads, running, first, covered]
  refine ⟨_, sent, ?_⟩
  rw [ne_eq, ← List.length_eq_zero_iff]
  rcases Nat.lt_or_ge (r.logBase + 1) peer.nextIndex with past | atBase
  · rw [describes_past_base_iff aligned _ _ past le]
    omega
  · have base : peer.nextIndex = r.logBase + 1 := by omega
    rw [base, describes_at_base_iff aligned]
    omega

end Raft

namespace Node

open Consensus

/-- Node `0` is elected and appends the given commands; node `1` confirms the
first two entries, and the first is compacted. -/
def compactedLeader (cmds : List Bytes) : List NodeAction :=
  [.becomeCandidate {}, .requestVoteReply 1 ⟨1, true⟩, .becomeLeader] ++
    cmds.map (.replicate · {}) ++
    [.appendEntriesReply 1 ⟨1, 0, 0, 0, [⟨1, 1, [7]⟩, ⟨2, 1, [8]⟩], 0⟩ ⟨1, true⟩,
      .snapshot 1 [5] {}]

/-- A leader with a snapshot describes its log to a peer that has all of it. -/
theorem request_describes_log_compacted :
    ∃ n, Run step (fun _ _ => True) (init ⟨0, [1, 2], 1⟩ {}) n ∧ n.raft.logBase = 1 ∧
      ∃ req, n.raft.sendAppendEntries 1 n.raft.currentTerm 2 = .request req ∧
        n.raft.Describes 3 req := by
  have reached : ∃ n, Run step (fun _ _ => True) (init ⟨0, [1, 2], 1⟩ {}) n ∧
      n.raft.state = .leader ∧ n.raft.shutdown = false ∧
      Aligned n.raft.logBase n.raft.log ∧ n.raft.peer? 1 = some ⟨1, 3, 2⟩ ∧
      n.raft.logBase = 1 ∧ n.raft.log = [⟨2, 1, [8]⟩] :=
    exists_run_of_perform (compactedLeader [[7], [8]]) _ (by decide +kernel)
  obtain ⟨n, run, leads, running, aligned, found, base, log⟩ := reached
  obtain ⟨req, sent, describes⟩ := Raft.request_describes_log_iff (r := n.raft) leads running
    aligned found (by rw [base]; decide) (by rw [base, log]; decide)
  exact ⟨n, run, base, req, sent, describes.mpr (.inr ⟨by simp [log], by simp [base, log]⟩)⟩

/-- A leader with a snapshot and an entry that the peer lacks sends no entry. -/
theorem compacted_leader_sends_nothing :
    ∃ n, Run step (fun _ _ => True) (init ⟨0, [1, 2], 1⟩ {}) n ∧
      n.raft.state = .leader ∧ n.raft.peer? 1 = some ⟨1, 3, 2⟩ ∧ n.raft.logBase = 1 ∧
      n.raft.log = [⟨2, 1, [8]⟩, ⟨3, 1, [9]⟩] ∧
      n.raft.sendAppendEntries 1 1 2 = .request ⟨1, 0, 2, 1, [], 2⟩ ∧
      ¬ n.raft.Describes 3 ⟨1, 0, 2, 1, [], 2⟩ := by
  have reached : ∃ n, Run step (fun _ _ => True) (init ⟨0, [1, 2], 1⟩ {}) n ∧
      n.raft.state = .leader ∧ n.raft.peer? 1 = some ⟨1, 3, 2⟩ ∧ n.raft.logBase = 1 ∧
      n.raft.log = [⟨2, 1, [8]⟩, ⟨3, 1, [9]⟩] ∧
      n.raft.sendAppendEntries 1 1 2 = .request ⟨1, 0, 2, 1, [], 2⟩ :=
    exists_run_of_perform (compactedLeader [[7], [8], [9]]) _ (by decide +kernel)
  obtain ⟨n, run, leads, found, base, log, sent⟩ := reached
  refine ⟨n, run, leads, found, base, log, sent, fun described => ?_⟩
  have entries := described.entries
  simp [log] at entries

end Node

end DistribKV
