import DistribKV.Cluster.Model
import DistribKV.Node.Model

/-!
# The cluster seen from one node

Each node of a cluster is a node in the sense of `Node`: a step of the cluster is,
for the node that acts, a step of that node in some environment, and leaves the
other nodes alone.  What is proved of a node in any environment holds of the nodes
of a cluster.
-/

namespace DistribKV

/-- The step that node `i` takes in a step of the cluster. -/
def Action.onNode (i : Int) : Action → Option NodeAction
  | .electionTimeout j disk => if j = i then some (.becomeCandidate disk) else none
  | .becomeLeader j _ => if j = i then some .becomeLeader else none
  | .replicate j cmd disk => if j = i then some (.replicate cmd disk) else none
  | .receive (.requestVote _ dst req) disk =>
      if dst = i then some (.requestVote req disk) else none
  | .receive (.requestVoteReply src _ term resp) _ =>
      if src = i then some (.requestVoteReply term resp) else none
  | .receive (.appendEntries _ dst req) disk =>
      if dst = i then some (.appendEntries req disk) else none
  | .receive (.appendEntriesReply src dst req resp) _ =>
      if src = i then some (.appendEntriesReply dst req resp) else none
  | .receive (.installSnapshot _ dst req _) disk =>
      if dst = i then some (.installSnapshot req disk) else none
  | .receive (.installSnapshotReply src dst req resp) _ =>
      if src = i then some (.installSnapshotReply dst req resp) else none
  | .takeEntry j => if j = i then some .takeEntry else none
  | .sendEntry j => if j = i then some .sendEntry else none
  | .consume j => if j = i then some .consume else none
  | .snapshot j index data disk => if j = i then some (.snapshot index data disk) else none
  | .restart j => if j = i then some .restart else none
  | _ => none

namespace Cluster

/-- Node `i` on its own. -/
def process (s : Cluster) (i : Int) : Node where
  raft := s.node i
  applying := s.applying i

/-- What node `i` sees of a step. -/
inductive Projects (s : Cluster) (a : Action) (s' : Cluster) (i : Int) : Prop where
  | steps {b : NodeAction} {n : Node} (action : a.onNode i = some b)
      (stepped : (s.process i).step b = some n) (raft : s'.node i = n.raft)
      (applying : s'.applying i = n.applying)
  | stays (action : a.onNode i = none) (yields : (s.node i).Yields (s'.node i))
      (applying : s'.applying i = s.applying i)

namespace Projects

variable {s s' : Cluster} {a : Action}

/-- Node `j` takes a step. -/
theorem of_update {j : Int} {b : NodeAction} {n : Node}
    (action : ∀ i, a.onNode i = if j = i then some b else none)
    (stepped : (s.process j).step b = some n) (node : s'.node = Function.update s.node j n.raft)
    (applying : s'.applying = Function.update s.applying j n.applying) (i : Int) :
    Projects s a s' i := by
  by_cases acts : j = i
  · subst acts
    exact .steps ((action j).trans (if_pos rfl)) stepped (by simp [node]) (by simp [applying])
  · have other : i ≠ j := fun same => acts same.symm
    refine .stays ((action i).trans (if_neg acts)) ?_ (by simp [applying, other])
    rw [node, Function.update_of_ne other]
    exact .refl _

/-- The apply loop of the node that acts stays where it is. -/
theorem of_setNode {j : Int} {b : NodeAction} {r : Raft}
    (action : ∀ i, a.onNode i = if j = i then some b else none)
    (stepped : ∃ n, (s.process j).step b = some n ∧ n.raft = r ∧ n.applying = s.applying j)
    (node : s'.node = Function.update s.node j r) (applying : s'.applying = s.applying)
    (i : Int) : Projects s a s' i := by
  obtain ⟨n, stepped, raft, same⟩ := stepped
  refine of_update action stepped (raft ▸ node) ?_ i
  rw [applying, same, Function.update_eq_self]

/-- No node takes a step. -/
theorem of_same (action : ∀ i, a.onNode i = none) (node : s'.node = s.node)
    (applying : s'.applying = s.applying) (i : Int) : Projects s a s' i := by
  refine .stays (action i) ?_ (by rw [applying])
  rw [node]
  exact .refl _

end Projects

variable {m : Membership} {s s' : Cluster}

theorem inNet_of_receive {packet : Packet} {disk : Disk}
    (stepped : s.step m (.receive packet disk) = some s') : packet ∈ s.net := by
  simp only [step] at stepped
  split at stepped
  next inNet => exact inNet
  · cases stepped

/-- Delivery of a message is a step of the node that handles it. -/
theorem projects_of_receive {packet : Packet} {disk : Disk}
    (stepped : s.step m (.receive packet disk) = some s') (i : Int) :
    Projects s (.receive packet disk) s' i := by
  simp only [step] at stepped
  split at stepped
  next inNet =>
    cases packet with
    | requestVote src dst req =>
        simp only [deliver] at stepped
        cases called : (s.node dst).requestVote req disk with
        | mk r reply =>
            rw [called] at stepped
            have moved : ∃ n, (s.process dst).step (.requestVote req disk) = some n ∧
                n.raft = r ∧ n.applying = s.applying dst := by
              simp only [process, Node.step, called]
              cases reply <;> exact ⟨_, rfl, rfl, rfl⟩
            cases reply with
            | error err =>
                cases stepped
                refine .of_setNode (fun _ => rfl) moved ?_ ?_ i <;> rfl
            | ok resp =>
                cases stepped
                refine .of_setNode (fun _ => rfl) moved ?_ ?_ i <;> rfl
    | requestVoteReply src dst term resp =>
        cases stepped
        refine .of_setNode (fun _ => rfl) ⟨_, rfl, rfl, rfl⟩ ?_ ?_ i <;> rfl
    | appendEntries src dst req =>
        simp only [deliver] at stepped
        cases called : (s.node dst).appendEntries req disk with
        | none =>
            rw [called] at stepped
            cases stepped
        | some result =>
            obtain ⟨r, reply⟩ := result
            rw [called] at stepped
            have moved : ∃ n, (s.process dst).step (.appendEntries req disk) = some n ∧
                n.raft = r ∧ n.applying = s.applying dst := by
              simp only [process, Node.step, called]
              exact ⟨_, rfl, rfl, rfl⟩
            cases reply with
            | error err =>
                cases stepped
                refine .of_setNode (fun _ => rfl) moved ?_ ?_ i <;> rfl
            | ok resp =>
                cases stepped
                refine .of_setNode (fun _ => rfl) moved ?_ ?_ i <;> rfl
    | appendEntriesReply src dst req resp =>
        cases stepped
        refine .of_setNode (fun _ => rfl) ⟨_, rfl, rfl, rfl⟩ ?_ ?_ i <;> rfl
    | installSnapshot src dst req covered =>
        simp only [deliver] at stepped
        have moved : ∃ n, (s.process dst).step (.installSnapshot req disk) = some n ∧
            n.raft = ((s.node dst).installSnapshot req disk).1 ∧
            n.applying = s.applying dst := ⟨_, rfl, rfl, rfl⟩
        cases called : (s.node dst).installSnapshot req disk with
        | mk r reply =>
            rw [called] at stepped moved
            cases reply with
            | error err =>
                cases stepped
                refine .of_setNode (fun _ => rfl) moved ?_ ?_ i <;> simp only [setNode] <;>
                  split <;> rfl
            | ok resp =>
                cases stepped
                refine .of_setNode (fun _ => rfl) moved ?_ ?_ i <;> simp only [setNode] <;>
                  split <;> rfl
    | installSnapshotReply src dst req resp =>
        cases stepped
        refine .of_setNode (fun _ => rfl) ⟨_, rfl, rfl, rfl⟩ ?_ ?_ i <;> rfl
  · cases stepped

/-- A step of the apply loop. -/
theorem projects_of_takeEntry {j : Int} (stepped : s.step m (.takeEntry j) = some s')
    (i : Int) : Projects s (.takeEntry j) s' i := by
  simp only [step] at stepped
  split at stepped
  · cases stepped
  next idle =>
    split at stepped
    · cases stepped
    next r msg taken =>
      cases stepped
      refine .of_update (n := { s.process j with raft := r, applying := some msg })
        (fun _ => rfl) ?_ rfl rfl i
      simp [process, Node.step, idle, taken]

theorem projects_of_sendEntry {j : Int} (stepped : s.step m (.sendEntry j) = some s')
    (i : Int) : Projects s (.sendEntry j) s' i := by
  simp only [step] at stepped
  split at stepped
  · cases stepped
  next msg held =>
    split at stepped
    · cases stepped
    next r sent =>
      cases stepped
      refine .of_update (n := { s.process j with raft := r, applying := none, sent := [msg] })
        (fun _ => rfl) ?_ rfl rfl i
      simp [process, Node.step, held, sent]

/-- A step of the cluster is a step of the node that acts. -/
theorem projects_of_step {a : Action} (stepped : s.step m a = some s') (i : Int) :
    Projects s a s' i := by
  cases a with
  | receive packet disk => exact projects_of_receive stepped i
  | takeEntry j => exact projects_of_takeEntry stepped i
  | sendEntry j => exact projects_of_sendEntry stepped i
  | consume j =>
      cases stepped
      refine .of_setNode (fun _ => rfl) ⟨_, rfl, rfl, rfl⟩ ?_ ?_ i <;> rfl
  | electionTimeout j disk =>
      simp only [step] at stepped
      split at stepped
      · cases stepped
        refine .of_setNode (fun _ => rfl) ⟨_, rfl, rfl, rfl⟩ ?_ ?_ i <;> rfl
      · cases stepped
  | becomeLeader j term =>
      simp only [step] at stepped
      split at stepped
      · cases stepped
        refine .of_setNode (fun _ => rfl) ⟨_, rfl, rfl, rfl⟩ ?_ ?_ i <;> rfl
      · cases stepped
  | replicate j cmd disk =>
      simp only [step] at stepped
      split at stepped
      · have moved : ∃ n, (s.process j).step (.replicate cmd disk) = some n ∧
            n.raft = ((s.node j).replicateCommand cmd disk).1 ∧
            n.applying = s.applying j := ⟨_, rfl, rfl, rfl⟩
        cases called : (s.node j).replicateCommand cmd disk with
        | mk r result =>
            rw [called] at stepped moved
            cases result with
            | error err =>
                cases stepped
                refine .of_setNode (fun _ => rfl) moved ?_ ?_ i <;> rfl
            | ok index =>
                cases stepped
                refine .of_setNode (fun _ => rfl) moved ?_ ?_ i <;> rfl
      · cases stepped
  | snapshot j index data disk =>
      simp only [step] at stepped
      split at stepped
      · cases stepped
        refine .of_setNode (fun _ => rfl) ⟨_, rfl, rfl, rfl⟩ ?_ ?_ i <;>
          simp only [setNode] <;> split <;> rfl
      · cases stepped
  | restart j =>
      simp only [step] at stepped
      split at stepped
      · cases stepped
        refine .of_update (fun _ => rfl) rfl ?_ ?_ i <;> rfl
      · cases stepped
  | campaign j term =>
      simp only [step] at stepped
      split at stepped
      · cases stepped
        refine .stays rfl ?_ rfl
        by_cases acts : i = j
        · subst acts
          simp only [setNode, Function.update_self]
          exact .resetElectionTimer _
        · simp only [setNode, Function.update_of_ne acts]
          exact .refl _
      · cases stepped
  | sendAppendEntries j peer term commitIdx =>
      simp only [step] at stepped
      split at stepped
      · split at stepped <;> cases stepped <;> refine .of_same (fun _ => rfl) ?_ ?_ i <;> rfl
      · cases stepped
  | sendInstallSnapshot j peer term =>
      simp only [step] at stepped
      split at stepped
      · split at stepped <;> cases stepped <;> refine .of_same (fun _ => rfl) ?_ ?_ i <;> rfl
      · cases stepped
  | _ =>
      simp only [step] at stepped
      split at stepped
      · cases stepped
        refine .of_same (fun _ => rfl) ?_ ?_ i <;> rfl
      · cases stepped

end Cluster

end DistribKV
