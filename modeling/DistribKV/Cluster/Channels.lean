import DistribKV.Cluster.LogMatching
import DistribKV.Cluster.Projection
import DistribKV.Node.Pipeline

/-!
# From logs and snapshots to the applications

What a step of the cluster does to the messages on their way from a node to its
application: entries of the log, one after the other, and snapshots of other nodes.

The bytes of a snapshot are opaque to the nodes.  Whatever is true of the snapshots that
applications hand over, with the entries these stand for, is true of every snapshot that
a node holds or sends.
-/

namespace DistribKV

/-- What the apply loop makes of an entry. -/
def LogEntry.message (entry : LogEntry) : ApplyMsg := .command entry.command entry.index

namespace Cluster

variable {m : Membership} {threshold : Int} {s s' : Cluster} {a : Action} {o : Outcome}
variable {i : Int}

/-! ## Who acts -/

/-- The application of a node reads in one step of the cluster only. -/
theorem onNode_consume (action : a.onNode i = some .consume) : a = .consume i := by
  cases a with
  | consume j =>
      simp only [Action.onNode] at action
      split at action
      next here => rw [here]
      · cases action
  | receive packet disk => cases packet <;> simp [Action.onNode] at action
  | _ => simp [Action.onNode] at action

theorem onNode_restart (action : a.onNode i = some .restart) : a = .restart i := by
  cases a with
  | restart j =>
      simp only [Action.onNode] at action
      split at action
      next here => rw [here]
      · cases action
  | receive packet disk => cases packet <;> simp [Action.onNode] at action
  | _ => simp [Action.onNode] at action

theorem onNode_installSnapshot {req : InstallSnapshotRequest} {disk : Disk}
    (action : a.onNode i = some (.installSnapshot req disk)) :
    ∃ src covered, a = .receive (.installSnapshot src i req covered) disk := by
  cases a with
  | receive packet disk =>
      cases packet with
      | installSnapshot src dst req covered =>
          simp only [Action.onNode] at action
          split at action
          next here =>
            cases action
            exact ⟨src, covered, by rw [here]⟩
          · cases action
      | _ => simp [Action.onNode] at action
  | _ => simp [Action.onNode] at action

/-! ## Messages -/

/-- A snapshot that will be installed finds the apply loop idle, a working disk and room
on the channel. -/
@[reducible] def InstallsAtRest (s : Cluster) : Action → Prop
  | .receive (.installSnapshot _ dst req _) disk =>
      (s.process dst).Delivers (.installSnapshot req disk)
  | _ => True

instance (s : Cluster) : DecidablePred s.InstallsAtRest := Action.decidable _

/-- What a step does to the messages on their way from node `i` to its application, and
to the commit index they are bounded by. -/
inductive Pipes (s : Cluster) (a : Action) (s' : Cluster) (i : Int) : Prop where
  | keeps (commit : (s.node i).commitIndex ≤ (s'.node i).commitIndex)
      (lastApplied : (s'.node i).lastApplied = (s.node i).lastApplied)
      (applyCh : (s'.node i).applyCh = (s.node i).applyCh)
      (applying : s'.applying i = s.applying i)
  | takes {entry : LogEntry} (idle : s.applying i = none)
      (pending : (s.node i).lastApplied < (s.node i).commitIndex)
      (found : (s.whole i)[(s.node i).lastApplied]? = some entry)
      (commit : (s'.node i).commitIndex = (s.node i).commitIndex)
      (lastApplied : (s'.node i).lastApplied = (s.node i).lastApplied + 1)
      (applyCh : (s'.node i).applyCh = (s.node i).applyCh)
      (applying : s'.applying i = some entry.message)
  | sends {msg : ApplyMsg} (held : s.applying i = some msg)
      (commit : (s'.node i).commitIndex = (s.node i).commitIndex)
      (lastApplied : (s'.node i).lastApplied = (s.node i).lastApplied)
      (applyCh : (s'.node i).applyCh = (s.node i).applyCh ++ [msg])
      (applying : s'.applying i = none)
  | reads (action : a = .consume i)
      (commit : (s'.node i).commitIndex = (s.node i).commitIndex)
      (lastApplied : (s'.node i).lastApplied = (s.node i).lastApplied)
      (applyCh : (s'.node i).applyCh = (s.node i).applyCh.tail)
      (applying : s'.applying i = s.applying i)
  | installs {src : Int} {req : InstallSnapshotRequest} {covered : List LogEntry}
      (inNet : .installSnapshot src i req covered ∈ s.net) (idle : s.applying i = none)
      (fresh : (s.node i).commitIndex < req.lastIncludedIndex)
      (commit : req.lastIncludedIndex ≤ (s'.node i).commitIndex)
      (lastApplied : (s'.node i).lastApplied = req.lastIncludedIndex)
      (applyCh : (s'.node i).applyCh = (s.node i).applyCh ++
        [.snapshot req.data req.lastIncludedIndex req.lastIncludedTerm])
      (applying : s'.applying i = none)

/-- The nodes of the cluster are served as their pipelines need it. -/
theorem Shaped.delivers (shaped : Shaped s) (atRest : s.InstallsAtRest a)
    (stepped : s.step m a = some s') {b : NodeAction} (action : a.onNode i = some b) :
    (s.process i).Delivers b := by
  cases a with
  | receive packet disk =>
      have inNet := inNet_of_receive stepped
      cases packet with
      | appendEntries src dst req =>
          simp only [Action.onNode] at action
          split at action
          · cases action
            exact shaped.requests inNet
          · cases action
      | installSnapshot src dst req covered =>
          simp only [Action.onNode] at action
          split at action
          next here =>
            cases action
            exact here ▸ atRest
          · cases action
      | _ =>
          simp only [Action.onNode] at action
          split at action
          · cases action
            trivial
          · cases action
  | _ =>
      simp only [Action.onNode] at action
      first
        | cases action
        | split at action
          · cases action
            trivial
          · cases action

theorem Shaped.pipes_of_step (shaped : Shaped s) (running : ∀ i, a ≠ .restart i)
    (atRest : s.InstallsAtRest a) (stepped : s.step m a = some s') (i : Int) :
    Pipes s a s' i := by
  have placed : (s.node i).Placed := ⟨(shaped.node i).retained, shaped.committed i⟩
  cases projects_of_step stepped i with
  | stays _ yields applying =>
      exact .keeps yields.commitIndex.ge yields.lastApplied yields.applyCh applying
  | @steps b n action moved raft applying =>
      have feeds := Node.feeds_of_effect (n := s.process i) placed
        (shaped.delivers atRest stepped action) (Node.effect_of_step moved)
      cases feeds with
      | keep _ commit lastApplied applyCh =>
          exact .keeps (by rw [raft]; exact commit) (by rw [raft, lastApplied]; rfl)
            (by rw [raft, applyCh]; rfl) applying
      | compact _ commit lastApplied applyCh =>
          exact .keeps (by rw [raft]; exact commit) (by rw [raft, lastApplied]; rfl)
            (by rw [raft, applyCh]; rfl) applying
      | install idle _ fresh commit lastApplied queued applyCh =>
          obtain ⟨src, covered, rfl⟩ := onNode_installSnapshot action
          refine .installs (inNet_of_receive stepped) idle fresh (by rw [raft]; exact commit)
            (by rw [raft, lastApplied]) ?_ (by rw [applying]; exact idle)
          rw [raft, applyCh, queued]
          rfl
      | @take entry idle pending held index =>
          refine .takes idle pending ?_ (by rw [raft]; rfl) (by rw [raft]; rfl) (by rw [raft]; rfl)
            applying
          have member : entry ∈ s.whole i := List.mem_append_right _ held
          obtain ⟨k, found⟩ := List.mem_iff_getElem?.mp member
          have position := shaped.aligned i k entry found
          have same : k = (s.node i).lastApplied := by
            have next : entry.index = (s.node i).lastApplied + 1 := index
            omega
          exact same ▸ found
      | send held =>
          exact .sends held (by rw [raft]; rfl) (by rw [raft]; rfl) (by rw [raft]; rfl) applying
      | consume =>
          exact .reads (onNode_consume action) (by rw [raft]; rfl) (by rw [raft]; rfl)
            (by rw [raft]; rfl) applying
      | restart => exact absurd (onNode_restart action) (running i)

/-! ## The bytes of snapshots -/

/-- What a step does to the snapshot of the acting node and to the entries it stands for. -/
inductive SnapshotTurn (s : Cluster) (a : Action) (o : Outcome) : Prop where
  | keeps (snapshot : o.raft.snapshot = (s.node o.node).snapshot)
      (folded : o.folded = s.folded o.node)
  | compacts {index : Nat} {data : Bytes} {disk : Disk}
      (action : a = .snapshot o.node index data disk)
      (committed : index ≤ (s.node o.node).commitIndex) (snapshot : o.raft.snapshot = data)
      (folded : o.folded = (s.whole o.node).take index)
  | installs {src : Int} {req : InstallSnapshotRequest} {covered : List LogEntry}
      (inNet : .installSnapshot src o.node req covered ∈ s.net)
      (snapshot : o.raft.snapshot = req.data) (folded : o.folded = covered)

theorem snapshotTurn_of_effect (matched : Matched m threshold s) (effect : Effect m s a o)
    (running : ∀ i, a ≠ .restart i) : SnapshotTurn s a o := by
  have counted : ∀ {r : Raft}, r.updateCommitIndex.snapshot = r.snapshot := by
    intro r
    obtain ⟨_, _, -, moved⟩ := r.updateCommitIndex_eq
    rw [moved]
  cases effect with
  | yield yields => exact .keeps yields.snapshot rfl
  | refuseVote _ yields => exact .keeps yields.snapshot rfl
  | refuseAppend _ yields => exact .keeps yields.snapshot rfl
  | answerInstall _ yields => exact .keeps yields.snapshot rfl
  | appendUnsaved _ yields => exact .keeps yields.snapshot rfl
  | append _ yields _ _ stored => exact .keeps (by rw [stored]; exact yields.snapshot) rfl
  | @grantVote src dst req disk r inNet grants =>
      refine .keeps ?_ rfl
      rw [grants.result]
      exact (Raft.Yields.adoptTerm (s.node dst) req.term).snapshot
  | replicate _ _ _ stored => exact .keeps (by rw [stored, counted]; rfl) rfl
  | recordMatch _ _ _ _ updated => exact .keeps (by rw [updated, counted]; rfl) rfl
  | recordInstall _ _ updated => exact .keeps (by rw [updated, counted]; rfl) rfl
  | install inNet installs installed =>
      obtain ⟨moves, -⟩ := matched.matching.installed matched.shaped inNet installs
      exact .installs inNet (by rw [installed]; rfl) (if_neg moves)
  | compact _ _ committed _ compacted =>
      exact .compacts rfl committed (by rw [compacted]; rfl) rfl
  | restart => exact absurd rfl (running _)
  | _ => exact .keeps rfl rfl

/-- Every snapshot in the cluster stands for its entries in the sense of `image`. -/
structure Depicts (image : Bytes → List LogEntry → Prop) (s : Cluster) : Prop where
  nodes : ∀ i, (s.node i).snapshot ≠ [] → image (s.node i).snapshot (s.folded i)
  packets : ∀ {src dst req covered}, .installSnapshot src dst req covered ∈ s.net →
    image req.data covered

namespace Depicts

variable {image : Bytes → List LogEntry → Prop}

theorem initial (m : Membership) (threshold : Int) : Depicts image (init m threshold) where
  nodes _ nonempty := absurd rfl nonempty
  packets inNet := by simp [init] at inNet

/-- A snapshot in a new message is the one of its sender. -/
theorem packets_of_effect (depicts : Depicts image s) (effect : Effect m s a o) {src dst : Int}
    {req : InstallSnapshotRequest} {covered : List LogEntry}
    (sent : .installSnapshot src dst req covered ∈ o.packets) : image req.data covered := by
  cases effect with
  | duplicate inNet =>
      cases List.mem_singleton.mp sent
      exact depicts.packets inNet
  | sendInstallSnapshot _ outgoing =>
      cases List.mem_singleton.mp sent
      have nonempty : (s.node src).snapshot ≠ [] := by
        intro empty
        simp only [Raft.sendInstallSnapshot, empty, List.length_nil, if_true] at outgoing
        split at outgoing
        · cases outgoing
        · split at outgoing <;> cases outgoing
      rw [Raft.sendInstallSnapshot_request outgoing]
      exact depicts.nodes src nonempty
  | install _ _ _ replies =>
      obtain ⟨_, impossible⟩ := replies _ sent
      cases impossible
  | _ => simp at sent

/-- It is enough that applications hand over snapshots that stand for the entries which
their nodes fold. -/
theorem step (depicts : Depicts image s) (matched : Matched m threshold s)
    (running : ∀ i, a ≠ .restart i)
    (handed : ∀ i index data disk, a = .snapshot i index data disk →
      index ≤ (s.node i).commitIndex → image data ((s.whole i).take index))
    (stepped : s.step m a = some s') : Depicts image s' := by
  obtain ⟨o, effect, applies⟩ := effect_of_step stepped
  refine ⟨fun i nonempty => ?_, fun inNet =>
    (applies.mem_net inNet).elim (depicts.packets_of_effect effect) depicts.packets⟩
  by_cases acts : i = o.node
  · subst acts
    rw [applies.node_self] at nonempty ⊢
    rw [applies.folded_self]
    cases snapshotTurn_of_effect matched effect running with
    | keeps snapshot folded =>
        rw [snapshot] at nonempty ⊢
        rw [folded]
        exact depicts.nodes _ nonempty
    | compacts action committed snapshot folded =>
        rw [snapshot, folded]
        exact handed _ _ _ _ action committed
    | installs inNet snapshot folded =>
        rw [snapshot, folded]
        exact depicts.packets inNet
  · rw [applies.node_of_ne acts] at nonempty ⊢
    rw [applies.folded_of_ne acts]
    exact depicts.nodes i nonempty

end Depicts

end Cluster

end DistribKV
