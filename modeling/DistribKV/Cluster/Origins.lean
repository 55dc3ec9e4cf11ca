import DistribKV.Cluster.Effect
import DistribKV.Cluster.Projection

/-!
# Where the entries of the logs come from

Entries are made by `ReplicateCommand`, and by nothing else.  A call that fails has made
none: the entry it put into the log is taken out again when it cannot be stored.  Every
other step copies entries that are in the log of some node, in memory or on disk, or on
their way to one.
-/

namespace DistribKV

/-- The entry is in the log of the node, in memory or on disk. -/
def Raft.Has (r : Raft) (entry : LogEntry) : Prop := entry ∈ r.log ∨ entry ∈ r.persister.log

namespace Raft

variable {r r' : Raft} {entry : LogEntry}

/-- The loop of the handler keeps entries or takes them from the request. -/
theorem mem_of_appendLoop {logBase prevLogIndex i : Nat} {entries log log' : List LogEntry}
    {modified modified' : Bool}
    (ended : appendLoop logBase prevLogIndex i entries (log, modified) = some (log', modified'))
    (member : entry ∈ log') : entry ∈ log ∨ entry ∈ entries := by
  induction entries generalizing i log modified with
  | nil =>
      cases ended
      exact .inl member
  | cons first rest ih =>
      -- what is left after a step, from the log before it and the first entry
      have later : ∀ {next flag}, appendLoop logBase prevLogIndex (i + 1) rest (next, flag) =
          some (log', modified') → (∀ e ∈ next, e ∈ log ∨ e = first) →
          entry ∈ log ∨ entry ∈ first :: rest := by
        intro next flag ended sub
        rcases ih ended with old | new
        · exact (sub _ old).imp_right fun same => List.mem_cons.mpr (.inl same)
        · exact .inr (List.mem_cons_of_mem _ new)
      simp only [appendLoop] at ended
      split at ended
      · split at ended
        · cases ended
        · split at ended
          · refine later ended fun e mem => ?_
            exact (List.mem_append.mp mem).imp List.mem_of_mem_take List.mem_singleton.mp
          · exact later ended fun e => .inl
      · exact later ended fun e mem => (List.mem_append.mp mem).imp id List.mem_singleton.mp

theorem mem_of_collectEntries {log : List LogEntry} {logBase : Nat} {indices : List Nat}
    (member : entry ∈ collectEntries log logBase indices) : entry ∈ log := by
  induction indices with
  | nil => cases member
  | cons i rest ih =>
      simp only [collectEntries] at member
      split at member
      · cases member
      next found =>
        rcases List.mem_cons.mp member with rfl | later
        · exact mem_of_entryAt found
        · exact ih later

/-- Requests carry entries of the sender's log. -/
theorem mem_of_sendAppendEntries {peerId : Int} {term commitIdx : Nat}
    {req : AppendEntriesRequest}
    (sent : r.sendAppendEntries peerId term commitIdx = .request req)
    (member : entry ∈ req.entries) : entry ∈ r.log := by
  obtain ⟨-, -, nextIdx, -, rfl⟩ := sendAppendEntries_request sent
  exact mem_of_collectEntries member

theorem Has.of_yields (has : r'.Has entry) (yields : Yields r r') : r.Has entry := by
  rwa [Has, yields.log, yields.persister] at has

/-- Nothing is added to the log, and what is stored is the log or was stored before. -/
theorem Has.of_sub (has : r'.Has entry) (sub : ∀ e ∈ r'.log, e ∈ r.log)
    (onDisk : r'.persister.log = r.persister.log ∨ r'.persister.log = r'.log) : r.Has entry := by
  rcases has with held | stored
  · exact .inl (sub _ held)
  · rcases onDisk with same | new
    · exact .inr (same ▸ stored)
    · exact .inl (sub _ (new ▸ stored))

end Raft

/-- A call of `ReplicateCommand` makes one entry, and only if it returns the index. -/
theorem Raft.has_of_replicateCommand {r : Raft} {cmd : Bytes} {disk : Disk} {entry : LogEntry}
    (has : (r.replicateCommand cmd disk).1.Has entry) :
    r.Has entry ∨ (r.replicateCommand cmd disk).2 = .ok entry.index ∧
      entry = ⟨entry.index, r.currentTerm, cmd⟩ := by
  cases called : r.replicateCommand cmd disk with
  | mk r' result =>
      rw [called] at has
      rcases replicateCommand_cases called with ⟨rfl, -⟩ | ⟨-, new, fresh, rfl, stored⟩
      · exact .inl has
      · obtain ⟨_, _, -, moved⟩ := (saved { r with log := r.log ++ [new] }).updateCommitIndex_eq
        rw [stored, moved] at has
        have member : entry ∈ r.log ++ [new] := has.elim id id
        rcases List.mem_append.mp member with old | isNew
        · exact .inl (.inl old)
        · cases List.mem_singleton.mp isNew
          exact .inr ⟨rfl, by rw [fresh]⟩

/-- Where an entry that a node has after a step comes from. -/
theorem Node.has_of_step {n n' : Node} {a : NodeAction} {entry : LogEntry}
    (stepped : n.step a = some n') (has : n'.raft.Has entry) :
    n.raft.Has entry ∨ (∃ req disk, a = .appendEntries req disk ∧ entry ∈ req.entries) ∨
      ∃ cmd disk, a = .replicate cmd disk ∧
        (n.raft.replicateCommand cmd disk).2 = .ok entry.index ∧
        entry = ⟨entry.index, n.raft.currentTerm, cmd⟩ := by
  by_cases writes : ∃ cmd disk, a = .replicate cmd disk
  · obtain ⟨cmd, disk, rfl⟩ := writes
    cases stepped
    rcases Raft.has_of_replicateCommand has with old | made
    · exact .inl old
    · exact .inr (.inr ⟨cmd, disk, rfl, made⟩)
  · cases Node.effect_of_step stepped with
    | yield yields => exact .inl (has.of_yields yields)
    | write => exact absurd ⟨_, _, rfl⟩ writes
    | stand stood =>
        rcases stood with rfl | rfl
        · exact .inl has
        · exact .inl (has.of_sub (fun _ => id) (.inr rfl))
    | @grant req disk r grants =>
        have log := (Raft.Yields.adoptTerm n.raft req.term).log
        simp only [grants.result] at has
        refine .inl (has.of_sub (fun e member => ?_) (.inr rfl))
        rwa [← log]
    | lead led =>
        simp only [led] at has
        exact .inl has
    | @append req disk heard r log _ _ _ _ yields accepts stored _ _ onDisk =>
        simp only [stored] at has
        have member : n.raft.Has entry ∨ entry ∈ log := by
          rcases has with held | kept
          · exact .inr held
          · rcases onDisk with same | new
            · exact .inl (.inr (same ▸ kept))
            · exact .inr (new ▸ kept)
        rcases member with old | held
        · exact .inl old
        · exact (Raft.mem_of_appendLoop accepts.loop held).imp .inl
            fun sent => .inl ⟨_, _, rfl, sent⟩
    | compact _ _ _ compacted _ onDisk =>
        subst compacted
        exact .inl (has.of_sub (fun _ => List.mem_of_mem_drop) onDisk)
    | install _ installs installed _ _ onDisk =>
        subst installed
        refine .inl (has.of_sub (fun e member => ?_) onDisk)
        rw [← installs.yields.log]
        exact List.mem_of_mem_filter member
    | take => exact .inl has
    | send => exact .inl has
    | consume => exact .inl has
    | restart =>
        left
        simp only [Raft.Has, Raft.restart_log, Raft.restart_persister, or_self] at has
        exact .inr has

namespace Cluster

variable {m : Membership} {s s' : Cluster} {a : Action} {P : LogEntry → Prop}

theorem onNode_appendEntries {i : Int} {req : AppendEntriesRequest} {disk : Disk}
    (action : a.onNode i = some (.appendEntries req disk)) :
    ∃ src, a = .receive (.appendEntries src i req) disk := by
  cases a with
  | receive packet disk =>
      cases packet with
      | appendEntries src dst req =>
          simp only [Action.onNode] at action
          split at action
          next here =>
            cases action
            exact ⟨src, by rw [here]⟩
          · cases action
      | _ => simp [Action.onNode] at action
  | _ => simp [Action.onNode] at action

theorem onNode_replicate {i : Int} {cmd : Bytes} {disk : Disk}
    (action : a.onNode i = some (.replicate cmd disk)) : a = .replicate i cmd disk := by
  cases a with
  | replicate j cmd' disk' =>
      simp only [Action.onNode] at action
      split at action
      next here =>
        cases action
        rw [here]
      · cases action
  | receive packet disk => cases packet <;> simp [Action.onNode] at action
  | _ => simp [Action.onNode] at action

/-- Every entry in a log, in memory or on disk, and on its way to one has a property. -/
structure Sourced (P : LogEntry → Prop) (s : Cluster) : Prop where
  logs : ∀ {i entry}, (s.node i).Has entry → P entry
  requests : ∀ {src dst req entry}, .appendEntries src dst req ∈ s.net → entry ∈ req.entries →
    P entry

theorem Sourced.mono {Q : LogEntry → Prop} (sourced : Sourced P s)
    (weaker : ∀ entry, P entry → Q entry) : Sourced Q s where
  logs has := weaker _ (sourced.logs has)
  requests inNet member := weaker _ (sourced.requests inNet member)

theorem Sourced.initial (P : LogEntry → Prop) (m : Membership) (threshold : Int) :
    Sourced P (init m threshold) where
  logs has := by rcases has with held | stored <;> contradiction
  requests inNet := by cases inNet

/-- Entries are made by successful calls of `ReplicateCommand`. -/
theorem Sourced.step (sourced : Sourced P s) (stepped : s.step m a = some s')
    (made : ∀ i cmd disk index, a = .replicate i cmd disk →
      ((s.node i).replicateCommand cmd disk).2 = .ok index →
      P ⟨index, (s.node i).currentTerm, cmd⟩) : Sourced P s' where
  logs {i entry} has := by
    cases projects_of_step stepped i with
    | stays _ yields => exact sourced.logs (has.of_yields yields)
    | @steps b n action moved raft =>
        rw [raft] at has
        rcases Node.has_of_step moved has with old | ⟨req, disk, rfl, sent⟩ |
          ⟨cmd, disk, rfl, ok, isNew⟩
        · exact sourced.logs old
        · obtain ⟨src, rfl⟩ := onNode_appendEntries action
          exact sourced.requests (inNet_of_receive stepped) sent
        · rw [isNew]
          exact made i cmd disk _ (onNode_replicate action) ok
  requests {src dst req entry} inNet member := by
    obtain ⟨o, effect, applies⟩ := effect_of_step stepped
    rcases applies.mem_net inNet with new | old
    · cases effect with
      | sendAppendEntries pending sent =>
          cases List.mem_singleton.mp new
          exact sourced.logs (.inl (Raft.mem_of_sendAppendEntries sent member))
      | duplicate known =>
          cases List.mem_singleton.mp new
          exact sourced.requests known member
      | install _ _ _ replies =>
          obtain ⟨resp, reply⟩ := replies _ new
          cases reply
      | _ => simp at new
    · exact sourced.requests old member

end Cluster

end DistribKV
