import DistribKV.Cluster.Commit

/-!
# State machine safety

Any two nodes agree on the prefix both take to be committed.  With restarts this
holds as long as no step relies on more than the disk holds; nodes rely on their
disk here, so the invariants are those of the `disk` view.

A restart takes the whole stored log to be committed.  The run at the end of this
module shows a leader that restarts with an entry nobody else has, and another
leader that commits a different entry at the same index.
-/

namespace DistribKV

namespace Cluster

open Consensus

/-- A current request that fits the log, with entries the log has already: the
handler confirms it and stores nothing. -/
def Repeats (r : Raft) (req : AppendEntriesRequest) : Prop :=
  r.currentTerm ≤ req.term ∧ r.prevLogOk req = true ∧
    agreeing (r.log.drop (req.prevLogIndex - r.logBase)) req.entries = req.entries.length

instance (r : Raft) (req : AppendEntriesRequest) : Decidable (Repeats r req) :=
  inferInstanceAs (Decidable (_ ∧ _ ∧ _))

/-- No step relies on more than the disk holds.  A promotion is backed by votes of the
current term, which a disk without a log has stored.  A request that repeats entries of
the log finds them stored.  A restart forgets no vote and finds either no log, or the
current term with a log that is committed for the node or for another node that has it. -/
@[reducible] def Careful (m : Membership) (s : Cluster) : Action → Prop
  | .becomeLeader i _ => (s.node i).state = .candidate →
      Majority (population m) (s.voters i (s.node i).currentTerm) ∧
        ((s.node i).persister.log = [] →
          (s.node i).persister.term = (s.node i).currentTerm)
  | .receive (.appendEntries _ dst req) _ => Repeats (s.node dst) req →
      (s.node dst).log.take (req.prevLogIndex + req.entries.length) <+: (s.node dst).persister.log
  | .restart i => s.Remembers i ∧
      ((s.node i).persister.log = [] ∨
        (s.node i).persister.term = (s.node i).currentTerm ∧
          ((s.node i).persister.log.length ≤ (s.node i).commitIndex ∨
            ∃ j ∈ m.ids, s.Vouches i j))
  | _ => True

instance (m : Membership) (s : Cluster) : DecidablePred (s.Careful m) := Action.decidable _

variable {m : Membership} {s : Cluster} {a : Action}

/-- A careful restart loses no promise. -/
theorem disk_promise_restart {r : Raft}
    (found : r.persister.log = [] ∨ r.persister.term = r.currentTerm) :
    View.disk.promise r ≤ View.disk.promise r.restart := by
  simp only [View.disk, Raft.restart_persister, Raft.restart_currentTerm]
  split
  · exact le_rfl
  next stored => exact (found.resolve_left stored).ge

/-- A confirmed request leaves the whole log on the disk, unless it repeats entries. -/
theorem stored_or_repeats {r r' : Raft} {req : AppendEntriesRequest} {disk : Disk}
    {resp : AppendEntriesResponse} (result : r.appendEntries req disk = some (r', .ok resp))
    (success : resp.success = true) :
    r'.persister.log = r'.log ∨
      Repeats r req ∧ r'.log = r.log ∧ r'.persister = r.persister := by
  rcases Raft.appendEntries_cases result with
    ⟨-, term, refused⟩ | ⟨heard, log, modified, yields, -, accepts, outcome⟩
  · cases refused
    cases success
  rcases outcome with ⟨-, -, err, failed⟩ | ⟨commitCh, rfl, -⟩
  · cases failed
  cases modified with
  | true => exact .inl rfl
  | false =>
      have loop := accepts.result
      simp only at loop
      split at loop
      next repeated =>
        cases loop
        exact .inr ⟨⟨accepts.current, accepts.consistent, repeated⟩, rfl, yields.persister⟩
      next => cases loop

theorem Careful.admissible (careful : s.Careful m a) : Admissible m .disk s a where
  promotes i term acts candidate := by
    subst acts
    obtain ⟨majority, stored⟩ := careful candidate
    refine ⟨majority, ?_⟩
    simp only [View.disk]
    split
    next unstored => exact stored unstored
    next => rfl
  appends src dst req disk r resp acts result success := by
    subst acts
    rcases stored_or_repeats result success with stored | ⟨repeats, log, persister⟩
    · simp only [View.disk, stored]
      exact List.take_prefix _ _
    · simp only [View.disk, log, persister]
      exact careful repeats
  restarts i acts := by
    subst acts
    obtain ⟨remembers, found⟩ := careful
    exact
      { remembers
        promise := disk_promise_restart (found.imp_right And.left)
        stable := rfl
        stableAfter := by simp [View.disk]
        commit := found.imp_right (And.imp_right (Or.imp_right
          fun ⟨j, _, vouches⟩ => ⟨j, vouches⟩)) }

/-- State machine safety: in every run in which no step relies on more than the
disk holds, whatever crashes and restarts it contains, any two nodes hold the
same entry at every index that both take to be committed. -/
theorem committed_prefix_agreement (fits : m.Fits)
    (run : Run (step m) (Careful m) (init m 0) s)
    {i j : Int} {n : Nat} (positive : 0 < n)
    (le : n ≤ min (s.node i).commitIndex (s.node j).commitIndex) :
    ∃ entry, (s.node i).log[n - 1]? = some entry ∧ (s.node j).log[n - 1]? = some entry := by
  have agreeing : Agreeing m .disk s :=
    run.invariant (.initial fits _) fun agreeing careful stepped =>
      (agreeing.step careful.admissible stepped).1
  exact agreeing.agree (by omega) (by omega)

/-- Node `0` commits a command with node `1`, which learns of it from the next
heartbeat and then restarts. -/
def careful : List Action :=
  replication ++
    [.receive (.appendEntriesReply 0 1 ⟨1, 0, 0, 0, [⟨1, 1, [7]⟩], 0⟩ ⟨1, true⟩) {},
      .heartbeat 0, .sendAppendEntries 0 1 1 1,
      .receive (.appendEntries 0 1 ⟨1, 0, 1, 1, [], 1⟩) {},
      .restart 1]

/-- Agreement applies to a run with a commit on two nodes and a restart. -/
theorem committed_prefix_agreement_restart :
    ∃ s, Run (step threeNodes) (Careful threeNodes) (init threeNodes 0) s ∧
      (s.node 0).commitIndex = 1 ∧ (s.node 1).commitIndex = 1 ∧
      ∃ entry, (s.node 0).log[0]? = some entry ∧ (s.node 1).log[0]? = some entry := by
  have reached : ∃ s, Run (step threeNodes) (Careful threeNodes) (init threeNodes 0) s ∧
      (s.node 0).commitIndex = 1 ∧ (s.node 1).commitIndex = 1 :=
    exists_run_of_perform careful _ (by decide +kernel)
  obtain ⟨s, run, commit, commit'⟩ := reached
  exact ⟨s, run, commit, commit',
    committed_prefix_agreement (by decide) run (n := 1) (by decide)
      (by rw [commit, commit']; decide)⟩

/-- Node `0` leads term `1`, stores a command and restarts before anyone else has
it.  Node `1` then leads term `2` and commits another command with node `2`.
Every write to a disk succeeds. -/
def hastyRestart : List Action :=
  election ++
    [.replicate 0 [1] {}, .restart 0,
      .electionTimeout 1 {}, .campaign 1 2, .sendRequestVote 1 2 2,
      .receive (.requestVote 1 2 ⟨2, 1, 0, 0⟩) {},
      .receive (.requestVoteReply 1 2 2 ⟨2, true⟩) {}, .becomeLeader 1 2,
      .replicate 1 [2] {}, .sendAppendEntries 1 2 2 0,
      .receive (.appendEntries 1 2 ⟨2, 1, 0, 0, [⟨1, 2, [2]⟩], 0⟩) {},
      .receive (.appendEntriesReply 1 2 ⟨2, 1, 0, 0, [⟨1, 2, [2]⟩], 0⟩ ⟨2, true⟩) {}]

/-- Two nodes take different entries at index `1` to be committed. -/
theorem restart_breaks_agreement :
    ∃ s, Run (step threeNodes) (fun _ _ => True) (init threeNodes 0) s ∧
      1 ≤ min (s.node 0).commitIndex (s.node 1).commitIndex ∧
      (s.node 0).log[0]? = some ⟨1, 1, [1]⟩ ∧ (s.node 1).log[0]? = some ⟨1, 2, [2]⟩ :=
  exists_run_of_perform hastyRestart _ (by decide +kernel)

end Cluster

end DistribKV
