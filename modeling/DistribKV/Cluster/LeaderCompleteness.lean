import DistribKV.Cluster.Commit

/-!
# Leader completeness

In runs without crashes and without compaction, whose promotions are backed by
votes counted in the term of the promotion, every leader holds everything that
has been or will be committed in an earlier term.  Nodes rely on their memory
here, so the invariants are those of the `memory` view.

Votes name candidates by the `int32` of their id.  The run at the end of this
module has two nodes that share one, and both collect the vote of a third.
-/

namespace DistribKV

namespace Cluster

open Consensus

/-- A promotion finds counted votes of a strict majority in the term in which it
takes place. -/
@[reducible] def PromotesByMajority (m : Membership) (s : Cluster) : Action → Prop
  | .becomeLeader i _ => (s.node i).state = .candidate →
      Majority (population m) (s.voters i (s.node i).currentTerm)
  | _ => True

instance (m : Membership) (s : Cluster) : DecidablePred (s.PromotesByMajority m) :=
  Action.decidable _

/-- No crashes, and only promotions by majority. -/
def Orderly (m : Membership) (s : Cluster) (a : Action) : Prop :=
  CrashFree s a ∧ s.PromotesByMajority m a

instance (m : Membership) (s : Cluster) (a : Action) : Decidable (s.Orderly m a) :=
  inferInstanceAs (Decidable (_ ∧ _))

variable {m : Membership} {s s' : Cluster} {a : Action} {o : Outcome}

theorem Orderly.running (orderly : s.Orderly m a) (i : Int) : a ≠ .restart i := by
  rintro rfl
  exact absurd orderly.1 (by simp [CrashFree, Action.isRestart])

theorem Orderly.admissible (orderly : s.Orderly m a) : Admissible m .memory s a where
  promotes i term acts candidate := by
    subst acts
    exact ⟨orderly.2 candidate, rfl⟩
  appends _ _ _ _ _ _ _ _ _ := List.take_prefix _ _
  restarts i restart := absurd restart (orderly.running i)

/-- The invariants of orderly runs. -/
structure Complete (m : Membership) (s : Cluster) : Prop where
  agreeing : Agreeing m .memory s
  kept : (View.memory.register s).Kept LogEntry.term (population m)

namespace Complete

theorem initial (fits : m.Fits) : Complete m (init m 0) :=
  ⟨.initial fits _, fun _ _ _ _ leader => by cases leader⟩

/-- Former leaders keep what is not dead. -/
theorem kept_of_effect (complete : Complete m s) (orderly : s.Orderly m a)
    (effect : Effect m s a o) (applies : Applies s o s')
    (evolution : (View.memory.register s).Evolves (View.memory.register s'))
    (safe' : (View.memory.register s').Safe LogEntry.term (population m)) :
    (View.memory.register s').Kept LogEntry.term (population m) := by
  have safety := complete.agreeing.safety
  have ledger := ledger_of_applies applies
  refine complete.kept.evolve safety.safe safe' evolution ?_ ?_
  · intro q t later part leader lt own held
    by_cases acts : q = o.node
    · subst acts
      have standing := (safety.matching.led o.node later leader).1
      have stays : (Safety.atLedger .memory s o).OwnPart LogEntry.term t part := by
        have after := evolution.ownPart own
        simpa only [Register.OwnPart, Safety.atLedger, View.register, ledger] using after
      have kept := safety.keeps_part effect (lt.le.trans standing) stays (.inl held)
        fun restart => absurd restart (orderly.running _)
      simp only [View.register, applies.node_self]
      exact kept.imp_right evolution.dead
    · simp only [View.register, applies.node_of_ne acts]
      exact .inl held
  · intro q later leader vacant
    have new : s.ledger.leader later ≠ some q := by
      intro held
      have none : s.ledger.leader later = none := vacant
      rw [none] at held
      cases held
    obtain ⟨rfl, -, -, book, -⟩ := (safety.turn effect).new_leader (ledger ▸ leader) new
    simp only [View.register, applies.node_self, ledger, book]
    exact List.prefix_refl _

theorem step (complete : Complete m s) (orderly : s.Orderly m a)
    (stepped : s.step m a = some s') :
    Complete m s' ∧ (View.memory.register s).Evolves (View.memory.register s') := by
  obtain ⟨agreeing', evolution⟩ := complete.agreeing.step orderly.admissible stepped
  obtain ⟨o, effect, applies⟩ := effect_of_step stepped
  exact ⟨⟨agreeing', complete.kept_of_effect orderly effect applies evolution
    agreeing'.safety.safe⟩, evolution⟩

/-- Along an orderly run the register evolves. -/
theorem of_run (complete : Complete m s) (run : Run (Cluster.step m) (Orderly m) s s') :
    Complete m s' ∧ (View.memory.register s).Evolves (View.memory.register s') := by
  apply run.invariant
  · exact ⟨complete, .refl _⟩
  intro t u a held orderly stepped
  obtain ⟨complete', evolution⟩ := held.1.step orderly stepped
  exact ⟨complete', held.2.trans evolution⟩

end Complete

/-- Leader completeness: when ids survive the wire, in runs without crashes whose
promotions are backed by a majority counted in their own term, if the leader of `term` commits up to
`commitIndex` at any time, then whoever has been promoted in a later term holds
from then on the entries the leader holds up to that index. -/
theorem leader_completeness (fits : m.Fits) (run : Run (step m) (Orderly m) (init m 0) s)
    (later : Run (step m) (Orderly m) s s') {i j : Int} {term term' commitIndex : Nat}
    {log log' : List LogEntry} (promoted : .promoted j term' log' ∈ s.history)
    (committed : .committed i term commitIndex log ∈ s'.history) (lt : term < term')
    {n : Nat} (positive : 0 < n) (le : n ≤ commitIndex) :
    ∃ entry, log[n - 1]? = some entry ∧ (s.node j).log[n - 1]? = some entry := by
  obtain ⟨complete, -⟩ := (Complete.initial fits).of_run run
  obtain ⟨complete', evolution⟩ := complete.of_run later
  have leader := complete.agreeing.safety.promoted promoted
  obtain ⟨bound, isCommitted⟩ := complete'.agreeing.committing.events committed
  have held : log.take commitIndex <+: (s.node j).log :=
    complete.kept.committed complete.agreeing.safety.safe evolution leader lt isCommitted
  have within : n - 1 < log.length := by omega
  refine ⟨log[n - 1], List.getElem?_eq_getElem within, ?_⟩
  obtain ⟨rest, split⟩ := held
  rw [← split, List.getElem?_append_left (by rw [List.length_take]; omega),
    List.getElem?_take_of_lt (by omega), List.getElem?_eq_getElem within]

/-- Node `0` leads term `1` and commits a command with node `1`, which then leads
term `2`. -/
def succession : List Action :=
  replication ++
    [.receive (.appendEntriesReply 0 1 ⟨1, 0, 0, 0, [⟨1, 1, [7]⟩], 0⟩ ⟨1, true⟩) {},
      .electionTimeout 1 {}, .campaign 1 2, .sendRequestVote 1 2 2,
      .receive (.requestVote 1 2 ⟨2, 1, 1, 1⟩) {},
      .receive (.requestVoteReply 1 2 2 ⟨2, true⟩) {}, .becomeLeader 1 2]

/-- Leader completeness applies to a run with a commit and a change of leader. -/
theorem leader_completeness_succession :
    ∃ s, Run (step threeNodes) (Orderly threeNodes) (init threeNodes 0) s ∧
      .committed 0 1 1 [⟨1, 1, [7]⟩] ∈ s.history ∧
      .promoted 1 2 [⟨1, 1, [7]⟩] ∈ s.history ∧
      ∃ entry, [(⟨1, 1, [7]⟩ : LogEntry)][0]? = some entry ∧
        (s.node 1).log[0]? = some entry := by
  have reached : ∃ s, Run (step threeNodes) (Orderly threeNodes) (init threeNodes 0) s ∧
      .committed 0 1 1 [⟨1, 1, [7]⟩] ∈ s.history ∧
      .promoted 1 2 [⟨1, 1, [7]⟩] ∈ s.history :=
    exists_run_of_perform succession _ (by decide +kernel)
  obtain ⟨s, run, committed, promoted⟩ := reached
  exact ⟨s, run, committed, promoted,
    leader_completeness (by decide) run (.refl s) promoted committed (by decide) (by decide) le_rfl⟩

/-- A cluster definition in which two ids are the same on the wire. -/
def twinNodes : Membership := ⟨[0, 1, 4294967296], by decide, by decide⟩

/-- Node `1` votes for node `0` in term `1`, and again for node `4294967296`, whose
request carries the same id.  Both lead term `1`; node `0` commits its command with
node `1`, and the other one, with a command of its own, leads term `3`. -/
def twinLeaders : List Action :=
  election ++
    [.electionTimeout 4294967296 {}, .campaign 4294967296 1, .sendRequestVote 4294967296 1 1,
      .receive (.requestVote 4294967296 1 ⟨1, 0, 0, 0⟩) {},
      .receive (.requestVoteReply 4294967296 1 1 ⟨1, true⟩) {}, .becomeLeader 4294967296 1,
      .replicate 0 [1] {}, .sendAppendEntries 0 1 1 0,
      .receive (.appendEntries 0 1 ⟨1, 0, 0, 0, [⟨1, 1, [1]⟩], 0⟩) {},
      .receive (.appendEntriesReply 0 1 ⟨1, 0, 0, 0, [⟨1, 1, [1]⟩], 0⟩ ⟨1, true⟩) {},
      .replicate 4294967296 [2] {},
      .electionTimeout 1 {}, .campaign 1 2, .sendRequestVote 1 4294967296 2,
      .receive (.requestVote 1 4294967296 ⟨2, 1, 1, 1⟩) {},
      .electionTimeout 4294967296 {}, .campaign 4294967296 3, .sendRequestVote 4294967296 1 3,
      .receive (.requestVote 4294967296 1 ⟨3, 0, 1, 1⟩) {},
      .receive (.requestVoteReply 4294967296 1 3 ⟨3, true⟩) {}, .becomeLeader 4294967296 3]

/-- The leader of term `3` holds another command at the committed index `1`. -/
theorem twin_leader_lacks_commit :
    ∃ s, Run (step twinNodes) (Orderly twinNodes) (init twinNodes 0) s ∧
      .committed 0 1 1 [⟨1, 1, [1]⟩] ∈ s.history ∧
      .promoted 4294967296 3 [⟨1, 1, [2]⟩] ∈ s.history ∧
      (s.node 4294967296).log[0]? = some ⟨1, 1, [2]⟩ :=
  exists_run_of_perform twinLeaders _ (by decide +kernel)

end Cluster

end DistribKV
