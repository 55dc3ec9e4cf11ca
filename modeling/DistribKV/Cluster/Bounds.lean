import DistribKV.Cluster.CompactedFollower
import DistribKV.Cluster.Projection
import DistribKV.Node.Bounds

/-!
# Index alignment and bounds

In a cluster without crashes every log is numbered from its base on, its terms do
not decrease, and the indices of a node are in order: base, applied, committed.
The last of these needs an application that takes snapshots only of what it has
been given, so the cluster is considered together with the messages that each
application has read from its apply channel.

Alignment is `Shaped`; the rest holds of each node in an environment that behaves
(`Node.Served`), and the cluster is such an environment.
-/

namespace DistribKV

/-- A cluster and the messages each application has read, newest first. -/
structure Hosted where
  cluster : Cluster
  delivered : Int → List ApplyMsg

namespace Hosted

open Consensus Cluster

def init (m : Membership) (threshold : Int) : Hosted where
  cluster := Cluster.init m threshold
  delivered _ := []

/-- What the applications have read after a step. -/
def deliveredAfter (h : Hosted) : Action → Int → List ApplyMsg
  | .consume i =>
      Function.update h.delivered i
        ((h.cluster.node i).applyCh.head?.toList ++ h.delivered i)
  | _ => h.delivered

def step (m : Membership) (h : Hosted) (a : Action) : Option Hosted :=
  match h.cluster.step m a with
  | none => none
  | some cluster => some { cluster, delivered := h.deliveredAfter a }

/-- `Snapshot` is called only with an index that has been delivered. -/
@[reducible] def CompactsDelivered (h : Hosted) : Action → Prop
  | .snapshot i index _ _ => ∃ msg ∈ h.delivered i, msg.index = index
  | _ => True

instance (h : Hosted) : DecidablePred h.CompactsDelivered := Action.decidable _

/-- The bounds on every node, on every request in flight, and on what has been
delivered. -/
structure Bounded (h : Hosted) : Prop where
  shaped : Shaped h.cluster
  ordered : ∀ i, (h.cluster.node i).Ordered
  requests : ∀ {src dst req}, .appendEntries src dst req ∈ h.cluster.net → req.Ordered
  applied : ∀ i, (h.cluster.process i).Applied
  delivered : ∀ i, ∀ msg ∈ h.delivered i, msg.index ≤ (h.cluster.node i).lastApplied

variable {m : Membership} {threshold : Int} {h h' : Hosted} {a : Action}

theorem step_cases (stepped : h.step m a = some h') :
    h.cluster.step m a = some h'.cluster ∧ h'.delivered = h.deliveredAfter a := by
  unfold step at stepped
  split at stepped
  · cases stepped
  next moved =>
    cases stepped
    exact ⟨moved, rfl⟩

namespace Bounded

theorem initial (m : Membership) (threshold : Int) : Bounded (init m threshold) where
  shaped := .initial m threshold
  ordered _ := ⟨.nil, nofun⟩
  requests := nofun
  applied _ := ⟨le_rfl, le_rfl, nofun, nofun⟩
  delivered _ := nofun

/-- The cluster serves each of its nodes. -/
theorem served (bounded : h.Bounded) (crashFree : CrashFree h.cluster a)
    (compacts : h.CompactsDelivered a) {s' : Cluster} (stepped : h.cluster.step m a = some s')
    {i : Int} {b : NodeAction} (action : a.onNode i = some b) :
    (h.cluster.process i).Served b := by
  cases a with
  | receive packet disk =>
      have inNet : packet ∈ h.cluster.net := by
        simp only [Cluster.step] at stepped
        split at stepped
        next inNet => exact inNet
        · cases stepped
      cases packet with
      | appendEntries src dst req =>
          simp only [Action.onNode] at action
          split at action
          · cases action
            exact bounded.requests inNet
          · cases action
      | _ =>
          simp only [Action.onNode] at action
          split at action
          · cases action
            trivial
          · cases action
  | snapshot j index data disk =>
      simp only [Action.onNode] at action
      split at action
      next acts =>
        cases action
        obtain ⟨msg, member, rfl⟩ := compacts
        exact acts ▸ bounded.delivered j msg member
      · cases action
  | restart j => cases crashFree
  | _ =>
      simp only [Action.onNode] at action
      first
        | cases action
        | split at action
          · cases action
            trivial
          · cases action

/-- A leader with a log in order sends requests in order. -/
theorem requests_of_effect (bounded : h.Bounded) {o : Outcome}
    (effect : Effect m h.cluster a o) {src dst : Int} {req : AppendEntriesRequest}
    (sent : .appendEntries src dst req ∈ o.packets) : req.Ordered := by
  cases effect with
  | duplicate inNet =>
      cases List.mem_singleton.mp sent
      exact bounded.requests inNet
  | sendAppendEntries _ outgoing =>
      cases List.mem_singleton.mp sent
      obtain ⟨-, rfl, nextIdx, -, rfl⟩ := Raft.sendAppendEntries_request outgoing
      exact (bounded.ordered src).request nextIdx _
  | install _ _ _ replies =>
      obtain ⟨_, impossible⟩ := replies _ sent
      cases impossible
  | _ => simp at sent

/-- What a step does to one node. -/
theorem node_step (bounded : h.Bounded) (crashFree : CrashFree h.cluster a)
    (compacts : h.CompactsDelivered a) {s' : Cluster}
    (stepped : h.cluster.step m a = some s') (i : Int) :
    (s'.node i).Ordered ∧ (s'.process i).Applied ∧
      (h.cluster.node i).lastApplied ≤ (s'.node i).lastApplied := by
  have ordered := bounded.ordered i
  have applied := bounded.applied i
  have placed : (h.cluster.node i).Placed :=
    ⟨(bounded.shaped.node i).retained, bounded.shaped.committed i⟩
  cases projects_of_step stepped i with
  | @steps b n action moved raft applying =>
      have served := bounded.served crashFree compacts stepped action
      have process : s'.process i = { n with sent := [], votes := [] } := by
        simp only [Cluster.process, raft, applying]
      obtain ⟨kept, ahead⟩ := applied.of_effect placed served (Node.effect_of_step moved)
      rw [process, raft]
      exact ⟨Node.ordered_step ordered served moved,
        ⟨kept.based, kept.committed, kept.held, kept.queued⟩, ahead⟩
  | stays action yields applying =>
      exact ⟨ordered.of_sublist (yields.log ▸ .refl _) yields.term_le,
        applied.of_same yields.logBase yields.lastApplied yields.commitIndex.ge applying
          yields.applyCh⟩

/-- Every message an application has read was on its channel. -/
theorem mem_deliveredAfter {i : Int} {msg : ApplyMsg} (member : msg ∈ h.deliveredAfter a i) :
    msg ∈ (h.cluster.node i).applyCh ∨ msg ∈ h.delivered i := by
  cases a with
  | consume j =>
      by_cases acts : i = j
      · subst acts
        rw [deliveredAfter, Function.update_self] at member
        refine (List.mem_append.mp member).imp_left fun read => ?_
        exact List.mem_of_mem_head? (Option.mem_toList.mp read)
      · rw [deliveredAfter, Function.update_of_ne acts] at member
        exact .inr member
  | _ => exact .inr member

theorem step (bounded : h.Bounded)
    (allowed : CrashFree h.cluster a ∧ h.CompactsDelivered a)
    (stepped : h.step m a = some h') : h'.Bounded := by
  obtain ⟨crashFree, compacts⟩ := allowed
  obtain ⟨moved, delivered⟩ := step_cases stepped
  have nodes := bounded.node_step crashFree compacts moved
  refine ⟨?_, fun i => (nodes i).1, ?_, fun i => (nodes i).2.1, ?_⟩
  · refine bounded.shaped.step (fun i restart => ?_) moved
    subst restart
    cases crashFree
  · intro src dst req inNet
    obtain ⟨o, effect, applies⟩ := effect_of_step moved
    rcases applies.mem_net inNet with new | old
    · exact bounded.requests_of_effect effect new
    · exact bounded.requests old
  · intro i msg member
    rw [delivered] at member
    refine Nat.le_trans ?_ (nodes i).2.2
    rcases mem_deliveredAfter member with queued | old
    · exact (bounded.applied i).queued msg queued
    · exact bounded.delivered i msg old

end Bounded

end Hosted

/-! ## The theorem -/

/-- Logs and requests are numbered consecutively, terms do not decrease along a log
and stay behind the node, and the indices of a node are in order. -/
structure Cluster.InBounds (s : Cluster) : Prop where
  aligned : ∀ i, Aligned (s.node i).logBase (s.node i).log
  sorted : ∀ i, (s.node i).log.Pairwise fun earlier later => earlier.term ≤ later.term
  bounded : ∀ i, ∀ entry ∈ (s.node i).log, entry.term ≤ (s.node i).currentTerm
  snapshotIndex : ∀ i, (s.node i).logBase = (s.node i).snapshotIndex
  applied : ∀ i, (s.node i).logBase ≤ (s.node i).lastApplied ∧
    (s.node i).lastApplied ≤ (s.node i).commitIndex
  requests : ∀ src dst req, .appendEntries src dst req ∈ s.net →
    Aligned req.prevLogIndex req.entries

namespace Hosted

open Consensus Cluster

variable {m : Membership} {threshold : Int} {h : Hosted}

/-- In every run without crashes in which `Snapshot` is called only with delivered
indices, whatever the disks and the network do, every node and every request in
flight is in bounds. -/
theorem in_bounds
    (run : Run (step m) (fun h a => CrashFree h.cluster a ∧ h.CompactsDelivered a)
      (init m threshold) h) : h.cluster.InBounds := by
  have bounded : h.Bounded :=
    run.invariant (.initial m threshold) fun bounded allowed stepped =>
      bounded.step allowed stepped
  exact
    { aligned := fun i => (bounded.shaped.node i).retained
      sorted := fun i => (bounded.ordered i).sorted
      bounded := fun i => (bounded.ordered i).bounded
      snapshotIndex := fun i => (bounded.shaped.snapshotIndex i).symm
      applied := fun i => ⟨(bounded.applied i).based, (bounded.applied i).committed⟩
      requests := fun _ _ _ inNet => bounded.shaped.requests inNet }

/-- The bounds apply to a node that has compacted its log. -/
theorem in_bounds_compacted :
    ∃ h, Run (step threeNodes)
        (fun h a => CrashFree h.cluster a ∧ h.CompactsDelivered a) (init threeNodes 1) h ∧
      (h.cluster.node 1).logBase = 1 ∧ 1 ≤ (h.cluster.node 1).lastApplied := by
  obtain ⟨h, run, base⟩ : ∃ h, Run (step threeNodes)
      (fun h a => CrashFree h.cluster a ∧ h.CompactsDelivered a) (init threeNodes 1) h ∧
      (h.cluster.node 1).logBase = 1 :=
    exists_run_of_perform delayedCopy _ (by decide +kernel)
  exact ⟨h, run, base, base ▸ ((in_bounds run).applied 1).1⟩

end Hosted

end DistribKV
