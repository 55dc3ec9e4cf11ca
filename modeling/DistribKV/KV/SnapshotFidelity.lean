import DistribKV.KV.Shutdown

/-!
# Snapshots are images of the committed log

A snapshot that the key-value server hands to its node decodes to the map which
the committed commands up to its index produce, across shutdowns and restarts, as
long as a restart finds a snapshot or an empty log, and the server applies nothing
after `Kill` has taken a message away from it.  The run at the end of this module
restarts on a log without a snapshot: the node counts its entries as applied, and
the server, which starts empty, leaves them out of its next snapshot.
-/

namespace DistribKV.KV

open Consensus

variable {json : Json} {log : CommittedLog json}

/-- The snapshot file of a node comes from another node or from the server. -/
theorem stored_of_feeds {n n' : Node} {a : NodeAction} (feeds : Feeds n a n')
    (stored : ∀ file ∈ n.raft.persister.snapshotFile,
      log.Image file.data file.lastIncludedIndex)
    (installed : ∀ req disk, a = .installSnapshot req disk →
      log.Image req.data req.lastIncludedIndex)
    (handed : ∀ index data disk, a = .snapshot index data disk → log.Image data index) :
    ∀ file ∈ n'.raft.persister.snapshotFile, log.Image file.data file.lastIncludedIndex := by
  cases feeds with
  | keep placed commit lastApplied applyCh file => exact file ▸ stored
  | compact placed commit lastApplied applyCh file =>
      rcases file with same | new
      · exact same ▸ stored
      · simp only [new]
        rintro _ ⟨⟩
        exact handed _ _ _ rfl
  | install idle placed fresh commit lastApplied queued applyCh file =>
      rcases file with same | new
      · exact same ▸ stored
      · simp only [new]
        rintro _ ⟨⟩
        exact installed _ _ rfl
  | restart =>
      simp only [Raft.restart_persister]
      exact stored
  | _ => exact stored

namespace Process

variable {cfg : Config} {p : Persister} {s s' : Process} {a : ProcessAction}

/-- A restart finds files to continue from, and the server applies nothing after `Kill`
has taken a message out of the channel. -/
def Resumes (s : Process) : ProcessAction → Prop
  | .replica (.apply _) => s.lost = []
  | .restart => Restorable s.replica.node.raft.persister
  | _ => True

instance (s : Process) : DecidablePred s.Resumes
  | .replica (.apply _) => inferInstanceAs (Decidable (_ = _))
  | .restart => inferInstanceAs (Decidable (Restorable _))
  | .replica (.raft _) | .replica (.snapshot _) | .shutdown | .exitApplyLoop | .kill | .drain =>
      inferInstanceAs (Decidable True)

/-- Every snapshot in the process is an image of the committed log. -/
structure Faithful (log : CommittedLog json) (s : Process) : Prop where
  gapped : Gapped log s
  stored : ∀ file ∈ s.replica.node.raft.persister.snapshotFile,
    log.Image file.data file.lastIncludedIndex
  pending : ∀ handed ∈ s.replica.pending, log.Image handed.2 handed.1
  accepted : ∀ handed ∈ s.replica.accepted, log.Image handed.2 handed.1

namespace Faithful

/-- A process that starts on files to continue from. -/
theorem started {raft : Raft} {sent : List ApplyMsg} {votes : List (Nat × Int)}
    {accepted : List (Nat × Bytes)} (restorable : Restorable p)
    (stored : ∀ file ∈ p.snapshotFile, log.Image file.data file.lastIncludedIndex)
    (fresh : raft = (Raft.newRaft cfg p).start)
    (images : ∀ handed ∈ accepted, log.Image handed.2 handed.1) :
    Faithful log { replica := ⟨⟨raft, none, sent, votes⟩, {}, none, accepted⟩ } := by
  refine ⟨.started restorable stored fresh, ?_, by rintro _ ⟨⟩, images⟩
  subst fresh
  obtain ⟨_, _, _, _, _, _, _, recovered⟩ := Raft.newRaft_eq cfg p
  simp only [Raft.start, recovered]
  exact stored

theorem replica {action : ReplicaAction} (faithful : Faithful log s)
    (supplied : s.Supplied log (.replica action)) (resumes : s.Resumes (.replica action))
    (stepped : s.step json (.replica action) = some s') : Faithful log s' := by
  have gapped := faithful.gapped.step supplied (by simp) stepped
  simp only [Process.step] at stepped
  split at stepped
  · cases stepped
  split at stepped
  · cases stepped
  next replica moved =>
    cases action with
    | raft action =>
        cases stepped
        obtain ⟨own, node, acted, rfl⟩ := Replica.of_raft moved
        have feeds := Node.feeds_of_effect faithful.gapped.placed supplied.2.1
          (Node.effect_of_step acted)
        refine ⟨gapped, stored_of_feeds feeds faithful.stored supplied.2.2 ?_, faithful.pending,
          faithful.accepted⟩
        rintro index data disk rfl
        cases own
    | apply now =>
        obtain ⟨msg, rest, received, rfl⟩ := Replica.of_apply moved
        rw [received] at stepped
        cases stepped
        refine ⟨gapped, faithful.stored, fun handed taken => ?_, faithful.accepted⟩
        obtain ⟨-, image⟩ := gapped.pending handed taken
        rw [show s.lost = [] from resumes, lostAfter_nil] at image
        exact log.imageWithout_nil.mp image
    | snapshot disk =>
        cases stepped
        obtain ⟨index, data, raft, err, held, called, rfl⟩ := Replica.of_snapshot moved
        have image := faithful.pending _ held
        have feeds := Node.feeds_of_snapshotUpTo faithful.gapped.placed called
        refine ⟨gapped, stored_of_feeds feeds faithful.stored (by rintro _ _ ⟨⟩) ?_,
          by rintro _ ⟨⟩, fun handed isAccepted => ?_⟩
        · rintro _ _ _ ⟨⟩
          exact image
        · rcases List.mem_append.mp isAccepted with earlier | new
          · exact faithful.accepted handed earlier
          · split at new
            · cases List.mem_singleton.mp new
              exact image
            · cases new

/-- Every step keeps a process faithful. -/
theorem step (faithful : Faithful log s) (supplied : s.Supplied log a) (resumes : s.Resumes a)
    (stepped : s.step json a = some s') : Faithful log s' := by
  have goesOn : a ≠ .restart → Gapped log s' :=
    fun goesOn => faithful.gapped.step supplied goesOn stepped
  cases a with
  | replica action => exact faithful.replica supplied resumes stepped
  | restart =>
      cases stepped
      exact started resumes faithful.stored rfl faithful.accepted
  | shutdown =>
      have gapped := goesOn (by simp)
      simp only [Process.step] at stepped
      split at stepped
      · cases stepped
        obtain ⟨_, _, same⟩ := s.replica.node.raft.beginShutdown_eq
        refine ⟨gapped, ?_, faithful.pending, faithful.accepted⟩
        simp only [same]
        exact faithful.stored
      · cases stepped
  | exitApplyLoop =>
      have gapped := goesOn (by simp)
      simp only [Process.step] at stepped
      split at stepped
      · cases stepped
        refine ⟨gapped, ?_, faithful.pending, faithful.accepted⟩
        simp only [Node.exitApplyLoop]
        split <;> exact faithful.stored
      · cases stepped
  | kill =>
      have gapped := goesOn (by simp)
      simp only [Process.step] at stepped
      split at stepped
      · cases stepped
        exact ⟨gapped, faithful.stored, faithful.pending, faithful.accepted⟩
      · cases stepped
  | drain =>
      have gapped := goesOn (by simp)
      simp only [Process.step] at stepped
      split at stepped
      · cases stepped
        exact ⟨gapped, faithful.stored, faithful.pending, faithful.accepted⟩
      · cases stepped

end Faithful

/-- Snapshots are faithful: in every run of a process with shutdowns and restarts whose
committed entries are those of one log of commands without client ids, if restarts find
files to continue from and the server applies nothing after `Kill` has taken a message
away from it, every snapshot the node accepts from the key-value server decodes to the
map that the commands up to its index produce. -/
theorem snapshots_faithful (log : CommittedLog json) (restorable : Restorable p)
    (stored : ∀ file ∈ p.snapshotFile, log.Image file.data file.lastIncludedIndex)
    (run : Run (Process.step json) (fun s a => s.Supplied log a ∧ s.Resumes a) (init cfg p) s)
    {index : Nat} {data : Bytes} (handed : (index, data) ∈ s.replica.accepted) :
    ∃ state dedup, deserializeSnapshot json data = .ok (state, dedup) ∧
      ∀ key, state.lookup key = log.contents index key := by
  have faithful : Faithful log s := by
    apply run.invariant
    · exact .started restorable stored rfl (by simp)
    · exact fun faithful allowed stepped => faithful.step allowed.1 allowed.2 stepped
  obtain ⟨state, dedup, decoded, contents⟩ := faithful.accepted _ handed
  exact ⟨state, dedup, decoded, fun key => congrFun contents key⟩

/-! ### Two processes that restart -/

/-- With a threshold of one entry, a process takes a snapshot and is shut down with one
more committed entry in its channel, which `Kill` takes away.  It is started again on the
snapshot, and takes the next one. -/
def restartOnSnapshot : List ProcessAction :=
  [.replica (.raft (.appendEntries ⟨1, 1, 0, 0, [⟨1, 1, putX⟩, ⟨2, 1, putY⟩], 1⟩ {})),
    .replica (.raft .takeEntry), .replica (.raft .sendEntry), .replica (.apply 0),
    .replica (.snapshot {}), .replica (.raft (.appendEntries ⟨1, 1, 2, 1, [], 2⟩ {})),
    .replica (.raft .takeEntry), .replica (.raft .sendEntry), .shutdown, .exitApplyLoop, .kill,
    .drain, .restart, .replica (.apply 0),
    .replica (.raft (.appendEntries ⟨1, 1, 2, 1, [], 2⟩ {})), .replica (.raft .takeEntry),
    .replica (.raft .sendEntry), .replica (.apply 0), .replica (.snapshot {})]

/-- Both snapshots of that process are images of its committed log. -/
theorem snapshots_faithful_restart :
    ∃ s, Run (Process.step sampleJson) (fun s a => s.Supplied sampleLog a ∧ s.Resumes a)
        (init ⟨0, [1, 2], 1⟩ {}) s ∧
      s.replica.accepted = [(1, imageX), (2, imageXY)] ∧
      ∃ state dedup, deserializeSnapshot sampleJson imageXY = .ok (state, dedup) ∧
        ∀ key, state.lookup key = sampleLog.contents 2 key := by
  obtain ⟨s, run, accepted⟩ : ∃ s, Run (Process.step sampleJson)
      (fun s a => s.Alone sampleLog a ∧ s.Resumes a) (init ⟨0, [1, 2], 1⟩ {}) s ∧
      s.replica.accepted = [(1, imageX), (2, imageXY)] :=
    exists_run_of_perform restartOnSnapshot _ (by decide +kernel)
  have run := run.mono fun _ _ allowed => And.imp_left Alone.supplied allowed
  exact ⟨s, run, accepted, snapshots_faithful sampleLog (by decide) (by simp) run
    (by simp [accepted])⟩

/-- With a threshold of two entries, a process applies one entry, is shut down and started
again before there is a snapshot, and applies the next entry. -/
def restartOnLog : List ProcessAction :=
  [.replica (.raft (.appendEntries ⟨1, 1, 0, 0, [⟨1, 1, putX⟩], 1⟩ {})),
    .replica (.raft .takeEntry), .replica (.raft .sendEntry), .replica (.apply 0),
    .shutdown, .exitApplyLoop, .kill, .restart,
    .replica (.raft (.appendEntries ⟨1, 1, 1, 1, [⟨2, 1, putY⟩], 2⟩ {})),
    .replica (.raft .takeEntry), .replica (.raft .sendEntry), .replica (.apply 0),
    .replica (.snapshot {})]

/-- The snapshot at index `2` that the node then accepts lacks the key which the
first command wrote. -/
theorem restart_drops_applied_command :
    (∃ s, Run (Process.step sampleJson) (fun s _ => s.replica.Commits sampleLog)
        (init ⟨0, [1, 2], 2⟩ {}) s ∧ s.replica.accepted = [(2, imageY)]) ∧
      deserializeSnapshot sampleJson imageY = .ok ((∅ : Store).insert "y" "b", ∅) ∧
      ((∅ : Store).insert "y" "b").lookup "x" = none ∧
      sampleLog.contents 2 "x" = some "a" := by
  refine ⟨exists_run_of_perform restartOnLog _ (by decide +kernel), ?_, ?_, ?_⟩
  · rfl
  · rfl
  · rfl

end Process

end DistribKV.KV
