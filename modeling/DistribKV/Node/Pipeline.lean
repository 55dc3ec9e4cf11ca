import DistribKV.Node.Model
import DistribKV.Raft.Log

/-!
# From the log to the apply channel

What each step of a node does to the path on which entries reach the
application: the retained log, the apply indices, the entry in the hands of the
apply loop, the apply channel and the snapshot file.
-/

namespace DistribKV

/-- The stored log starts where the stored snapshot ends. -/
def Persister.Readable (p : Persister) : Prop :=
  match p.snapshotFile with
  | none => Aligned 0 p.log
  | some file => p.hardState.isSome → Aligned file.lastIncludedIndex p.log

instance (p : Persister) : Decidable p.Readable := by
  obtain ⟨hardState, snapshotFile⟩ := p
  cases snapshotFile <;> dsimp only [Persister.Readable] <;> infer_instance

namespace Raft

/-- The retained log is numbered from the base on, and the base is committed. -/
structure Placed (r : Raft) : Prop where
  aligned : Aligned r.logBase r.log
  based : r.logBase ≤ r.commitIndex

namespace Placed

variable {r r' : Raft}

theorem of_yields (placed : r.Placed) (yields : r.Yields r') : r'.Placed where
  aligned := by
    rw [yields.log, yields.logBase]
    exact placed.aligned
  based := by
    rw [yields.logBase, yields.commitIndex]
    exact placed.based

/-- An entry read at the offset of an index carries that index. -/
theorem index_of_found (placed : r.Placed) {index : Nat} {entry : LogEntry}
    (found : entryAt r.log ((index : Int) - r.logBase - 1) = some entry) :
    entry.index = index ∧ entry ∈ r.log := by
  have nonneg : 0 ≤ (index : Int) - r.logBase - 1 := by
    by_contra negative
    rw [entryAt_of_neg (by omega)] at found
    cases found
  obtain ⟨k, rfl⟩ : ∃ k, index = r.logBase + k + 1 := ⟨index - r.logBase - 1, by omega⟩
  have offset : ((r.logBase + k + 1 : Nat) : Int) - r.logBase - 1 = (k : Nat) := by omega
  rw [offset, entryAt_natCast] at found
  exact ⟨placed.aligned k entry found, List.mem_of_getElem? found⟩

/-- An installation keeps the tail past the snapshot. -/
theorem install (placed : r.Placed) {req : InstallSnapshotRequest} {heard : Raft}
    (installs : r.Installs req heard) : (heard.install req).Placed := by
  have fresh := installs.fresh
  have above : r.logBase ≤ req.lastIncludedIndex := placed.based.trans fresh.le
  have tail := placed.aligned.drop (req.lastIncludedIndex - r.logBase)
  rw [Nat.add_sub_of_le above, ← placed.aligned.filter_eq_drop above,
    ← installs.yields.log] at tail
  refine ⟨tail, ?_⟩
  simp only [Raft.install]
  split <;> omega

end Placed

/-- What a node that starts on a persister finds for the application. -/
inductive Recovers (p : Persister) (r : Raft) : Prop where
  /-- Without a snapshot every stored entry counts as applied. -/
  | log (noSnapshot : p.snapshotFile = none) (applyCh : r.applyCh = [])
      (lastApplied : r.lastApplied = (p.log.getLast?.map (·.index)).getD 0)
  /-- Without stored state nothing is read. -/
  | blank (applyCh : r.applyCh = []) (lastApplied : r.lastApplied = 0)
  | snapshot {file : SnapshotFile} (stored : p.snapshotFile = some file)
      (applyCh : r.applyCh =
        [.snapshot file.data file.lastIncludedIndex file.lastIncludedTerm])
      (lastApplied : r.lastApplied = file.lastIncludedIndex)

/-- A node that starts on a readable persister is placed. -/
theorem newRaft_recovers (cfg : Config) {p : Persister} (readable : p.Readable) :
    (newRaft cfg p).Placed ∧ (newRaft cfg p).lastApplied ≤ (newRaft cfg p).commitIndex ∧
      Recovers p (newRaft cfg p) := by
  unfold Persister.Readable at readable
  cases file : p.snapshotFile with
  | none =>
      rw [file] at readable
      rw [newRaft_of_noSnapshot cfg file]
      exact ⟨⟨readable, Nat.zero_le _⟩, Nat.le_refl _, .log file rfl rfl⟩
  | some stored =>
      rw [file] at readable
      cases blank : p.hardState with
      | none =>
          rw [newRaft_of_blank cfg blank]
          exact ⟨⟨.nil, Nat.le_refl _⟩, Nat.le_refl _, .blank rfl rfl⟩
      | some state =>
          rw [newRaft_of_snapshot cfg (by simp [blank]) file]
          exact ⟨⟨readable (by simp [blank]), Nat.le_max_left _ _⟩, Nat.le_max_left _ _,
            .snapshot file rfl rfl⟩

end Raft

/-- A transfer that passes every guard of `InstallSnapshot`. -/
def Raft.Admits (r : Raft) (req : InstallSnapshotRequest) : Prop :=
  req.data.length ≤ maxSnapshotBytes ∧ r.currentTerm ≤ req.term ∧
    r.commitIndex < req.lastIncludedIndex ∧ r.contradicts req = false

instance (r : Raft) (req : InstallSnapshotRequest) : Decidable (r.Admits req) :=
  inferInstanceAs (Decidable (_ ∧ _ ∧ _ ∧ _))

/-- Nothing fails on a working disk with room on the channel. -/
theorem Raft.installSnapshot_isOk (r : Raft) {req : InstallSnapshotRequest}
    (small : req.data.length ≤ maxSnapshotBytes) (room : r.applyCh.length < applyChCap) :
    (r.installSnapshot req {}).2.isOk = true := by
  have sameCh := (Yields.hearSnapshot r req).applyCh
  unfold installSnapshot
  rw [if_neg (Nat.not_lt.mpr small)]
  split
  · rfl
  simp only
  split
  · rfl
  split
  · rfl
  simp only [persist, saved, savedSnapshot, install, sameCh, room, if_true]
  rfl

namespace Node

/-- Requests to append are numbered as those of any leader; a snapshot that will
be installed finds the apply loop idle, a working disk and room on the channel. -/
@[reducible] def Delivers (n : Node) : NodeAction → Prop
  | .appendEntries req _ => Aligned req.prevLogIndex req.entries
  | .installSnapshot req disk => n.raft.Admits req →
      n.applying = none ∧ disk = {} ∧ n.raft.applyCh.length < applyChCap
  | _ => True

instance (n : Node) : DecidablePred n.Delivers := NodeAction.decidable _

end Node

/-- The ways a step of a placed node can affect what the application sees. -/
inductive Feeds (n : Node) : NodeAction → Node → Prop where
  /-- Nothing but the commit index moves. -/
  | keep {a : NodeAction} {r : Raft} {votes : List (Nat × Int)} (placed : r.Placed)
      (commit : n.raft.commitIndex ≤ r.commitIndex)
      (lastApplied : r.lastApplied = n.raft.lastApplied)
      (applyCh : r.applyCh = n.raft.applyCh)
      (file : r.persister.snapshotFile = n.raft.persister.snapshotFile) :
      Feeds n a { n with raft := r, votes }
  | compact {index term : Nat} {data : Bytes} {disk : Disk} {r : Raft} (placed : r.Placed)
      (commit : n.raft.commitIndex ≤ r.commitIndex)
      (lastApplied : r.lastApplied = n.raft.lastApplied)
      (applyCh : r.applyCh = n.raft.applyCh)
      (file : r.persister.snapshotFile = n.raft.persister.snapshotFile ∨
        r.persister.snapshotFile = some ⟨data, index, term⟩) :
      Feeds n (.snapshot index data disk) { n with raft := r }
  | install {req : InstallSnapshotRequest} {disk : Disk} {r : Raft} {msg : ApplyMsg}
      (idle : n.applying = none) (placed : r.Placed)
      (fresh : n.raft.commitIndex < req.lastIncludedIndex)
      (commit : req.lastIncludedIndex ≤ r.commitIndex)
      (lastApplied : r.lastApplied = req.lastIncludedIndex)
      (queued : msg = .snapshot req.data req.lastIncludedIndex req.lastIncludedTerm)
      (applyCh : r.applyCh = n.raft.applyCh ++ [msg])
      (file : r.persister.snapshotFile = n.raft.persister.snapshotFile ∨
        r.persister.snapshotFile =
          some ⟨req.data, req.lastIncludedIndex, req.lastIncludedTerm⟩) :
      Feeds n (.installSnapshot req disk) { n with raft := r, sent := n.sent ++ [msg] }
  | take {entry : LogEntry} (idle : n.applying = none)
      (pending : n.raft.lastApplied < n.raft.commitIndex) (held : entry ∈ n.raft.log)
      (index : entry.index = n.raft.lastApplied + 1) :
      Feeds n .takeEntry
        { n with
          raft := { n.raft with lastApplied := n.raft.lastApplied + 1 }
          applying := some (.command entry.command entry.index) }
  | send {msg : ApplyMsg} (held : n.applying = some msg) :
      Feeds n .sendEntry
        { n with
          raft := { n.raft with applyCh := n.raft.applyCh ++ [msg] }
          applying := none
          sent := n.sent ++ [msg] }
  | consume :
      Feeds n .consume { n with raft := { n.raft with applyCh := n.raft.applyCh.tail } }
  | restart :
      Feeds n .restart
        { n with
          raft := n.raft.restart
          applying := none
          sent := n.sent ++ n.raft.restart.applyCh }

namespace Node

variable {n n' : Node} {a : NodeAction}

theorem feeds_of_yields {r : Raft} (placed : n.raft.Placed) (yields : n.raft.Yields r) :
    Feeds n a { n with raft := r } :=
  .keep (placed.of_yields yields) yields.commitIndex.ge yields.lastApplied yields.applyCh
    (congrArg Persister.snapshotFile yields.persister)

/-- Every step of a placed node is one of the listed ones. -/
theorem feeds_of_effect (placed : n.raft.Placed) (delivers : n.Delivers a)
    (effect : NodeEffect n a n') : Feeds n a n' := by
  have aligned := placed.aligned
  have based := placed.based
  cases effect with
  | yield yields => exact feeds_of_yields placed yields
  | stand stood =>
      rcases stood with rfl | rfl
      · exact .keep ⟨aligned, based⟩ le_rfl rfl rfl rfl
      · exact .keep ⟨aligned, based⟩ le_rfl rfl rfl rfl
  | @grant req disk r grants =>
      have adopts := Raft.Yields.adoptTerm n.raft req.term
      have adopted := placed.of_yields adopts
      rw [grants.result]
      have file := congrArg Persister.snapshotFile adopts.persister
      exact .keep ⟨adopted.aligned, adopted.based⟩ adopts.commitIndex.ge adopts.lastApplied
        adopts.applyCh file
  | lead led commit =>
      subst led
      exact .keep ⟨aligned, based.trans commit⟩ commit rfl rfl rfl
  | write fresh stored commit =>
      subst stored
      refine .keep ⟨aligned.concat ?_, based.trans commit⟩ commit rfl rfl rfl
      rw [fresh]
      simp only
      omega
  | append yields accepts stored file commit =>
      subst stored
      refine .keep ⟨?_, ?_⟩ commit yields.lastApplied yields.applyCh file
      · simp only [yields.logBase]
        exact accepts.aligned aligned delivers
      · simp only [yields.logBase]
        exact based.trans commit
  | @compact index data disk entry r persister above committed found compacted file =>
      have tail := aligned.drop (index - n.raft.logBase)
      rw [Nat.add_sub_of_le above.le] at tail
      subst compacted
      exact .compact ⟨tail, committed⟩ le_rfl rfl rfl file
  | @install req disk heard r persister queued called installs installed file queue =>
      have fresh := installs.fresh
      have small : req.data.length ≤ maxSnapshotBytes := by
        by_contra large
        have refused : r = n.raft := by
          rw [← called]
          simp [Raft.installSnapshot, Nat.not_le.mp large]
        have moved := congrArg Raft.logBase (installed.symm.trans refused)
        simp only [Raft.install] at moved
        omega
      have current := installs.current
      obtain ⟨idle, rfl, room⟩ := delivers ⟨small, current, fresh, installs.agrees⟩
      rcases queue with ⟨-, err, failed⟩ | rfl
      · have succeeded := n.raft.installSnapshot_isOk small room
        rw [failed] at succeeded
        cases succeeded
      · have kept := placed.install installs
        subst installed
        exact .install idle ⟨kept.aligned, kept.based⟩ fresh kept.based rfl rfl rfl file
  | take idle pending found =>
      obtain ⟨index, held⟩ := placed.index_of_found found
      exact .take idle pending held index
  | send held => exact .send held
  | consume => exact .consume
  | restart => exact .restart

/-- A call of `Snapshot`. -/
theorem feeds_of_snapshotUpTo (placed : n.raft.Placed) {index : Nat} {data : Bytes} {disk : Disk}
    {raft : Raft} {err : Option String}
    (called : n.raft.snapshotUpTo index data disk = (raft, err)) :
    Feeds n (.snapshot index data disk) { n with raft } := by
  have stepped : n.step (.snapshot index data disk) = some { n with raft } := by
    simp only [step, called]
  exact feeds_of_effect placed trivial (effect_of_step stepped)

end Node

end DistribKV
