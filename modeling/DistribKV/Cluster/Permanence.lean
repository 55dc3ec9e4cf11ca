import DistribKV.Cluster.StateMachineSafety
import DistribKV.Consensus.Settlement

/-!
# What is never undone

Two states of one run are compared.  A leader only appends to its log while it
leads: its log is the book of the term, and books grow.  What a majority has
committed stays in every committed log there will ever be, so the prefix one node
takes to be committed now and the prefix another node takes to be committed later
are parts of one log.
-/

namespace DistribKV

namespace Cluster

open Consensus

variable {m : Membership} {threshold : Int} {view : View} {s s' : Cluster} {a : Action}

/-! ## Leaders -/

/-- Without crashes and with one leader per term, ledgers are extended. -/
theorem Matched.extends_step (matched : Matched m threshold s) (oneLeader : s'.OneLeader)
    (stepped : s.step m a = some s') : s.ledger.Extends s'.ledger := by
  obtain ⟨o, effect, applies⟩ := effect_of_step stepped
  rw [ledger_of_applies applies]
  exact (matched.matching.growsBy effect
    fun _ _ recorded => oneLeader.vacant matched.matching effect applies recorded).extension

/-- The ledger of a later state extends the one of an earlier state. -/
theorem Matched.extends_of_run (matched : s.OneLeader → Matched m threshold s)
    (later : Run (Cluster.step m) CrashFree s s') :
    s'.OneLeader → s.OneLeader ∧ Matched m threshold s' ∧ s.ledger.Extends s'.ledger := by
  apply later.invariant
  · exact fun oneLeader => ⟨oneLeader, matched oneLeader, .refl _⟩
  intro t u a held crashFree stepped oneLeader
  obtain ⟨o, -, applies⟩ := effect_of_step stepped
  obtain ⟨before, matched, extension⟩ := held (oneLeader.of_applies applies)
  exact ⟨before, matched.step crashFree oneLeader stepped,
    extension.trans (matched.extends_step oneLeader stepped)⟩

/-- Leader append-only: in every run without crashes in which no two nodes lead in
one term, whatever is compacted meanwhile, a node that leads one term at two moments
has between them only appended to its whole log. -/
theorem leader_append_only (run : Run (step m) CrashFree (init m threshold) s)
    (later : Run (step m) CrashFree s s') (oneLeader : s'.OneLeader) {i : Int}
    (leads : (s.node i).state = .leader) (leads' : (s'.node i).state = .leader)
    (sameTerm : (s'.node i).currentTerm = (s.node i).currentTerm) :
    s.whole i <+: s'.whole i := by
  obtain ⟨before, matched', extension⟩ :=
    Matched.extends_of_run (matched_of_run run) later oneLeader
  obtain ⟨leader, book⟩ := (matched_of_run run before).matching.leading i leads
  obtain ⟨-, book'⟩ := matched'.matching.leading i leads'
  rw [← book, ← book', sameTerm]
  exact extension.book _ (by rw [leader]; rfl)

/-- The leader of term `1` commits its command with node `1`, folds it into a snapshot
and goes on. -/
def compactingLeader : List Action :=
  [.receive (.appendEntriesReply 0 1 ⟨1, 0, 0, 0, [⟨1, 1, [7]⟩], 0⟩ ⟨1, true⟩) {},
    .takeEntry 0, .sendEntry 0, .consume 0, .snapshot 0 1 [] {}, .replicate 0 [8] {}]

/-- A leader that compacts its log keeps its whole log. -/
theorem leader_append_only_compacting :
    ∃ s s', Run (step threeNodes) CrashFree (init threeNodes 1) s ∧
      Run (step threeNodes) CrashFree s s' ∧ s.whole 0 = [⟨1, 1, [7]⟩] ∧
      (s'.node 0).logBase = 1 ∧ s.whole 0 <+: s'.whole 0 := by
  have reached : ∃ s, Run (step threeNodes) CrashFree (init threeNodes 1) s ∧
      (s.node 0).state = .leader ∧ (s.node 0).currentTerm = 1 ∧ s.whole 0 = [⟨1, 1, [7]⟩] ∧
      (perform (step threeNodes) CrashFree s compactingLeader).any (fun s' => decide
        (s'.OneLeader ∧ (s'.node 0).state = .leader ∧ (s'.node 0).currentTerm = 1 ∧
          (s'.node 0).logBase = 1)) = true :=
    exists_run_of_perform replication _ (by decide +kernel)
  obtain ⟨s, run, leads, term, whole, goesOn⟩ := reached
  obtain ⟨s', later, oneLeader, leads', term', base⟩ :=
    exists_run_of_perform compactingLeader _ goesOn
  exact ⟨s, s', run, later, whole, base,
    leader_append_only run later oneLeader leads leads' (term'.trans term.symm)⟩

/-! ## Committed entries -/

namespace Agreeing

/-- What a node takes to be committed is settled. -/
theorem settled_log (agreeing : Agreeing m view s) {i : Int} {n : Nat}
    (le : n ≤ (s.node i).commitIndex) :
    (view.register s).Settled LogEntry.term (population m) ((s.node i).log.take n) ∧
      n ≤ (s.node i).log.length := by
  rcases agreeing.committing.nodes i with zero | ⟨t, part, committed, -, reaches, inLog, -⟩
  · have none : n = 0 := by omega
    rw [none]
    exact ⟨.nil, Nat.zero_le _⟩
  · have within : n ≤ (part.take (s.node i).commitIndex).length := by
      rw [List.length_take]
      omega
    have same : (s.node i).log.take n = part.take n := by
      obtain ⟨rest, split⟩ := inLog
      rw [← split, List.take_append_of_le_length within, List.take_take, Nat.min_eq_left le]
    exact ⟨⟨t, .inr ⟨t, part, committed, le_rfl, same ▸ List.take_prefix _ _⟩⟩,
      within.trans inLog.length_le⟩

end Agreeing

/-- Along a run of careful steps, promises and acknowledgements evolve. -/
theorem agreeing_of_run (agreeing : Agreeing m .disk s) (run : Run (step m) (Careful m) s s') :
    Agreeing m .disk s' ∧ (View.disk.register s).Evolves (View.disk.register s') := by
  apply run.invariant
  · exact ⟨agreeing, .refl _⟩
  intro t u a held careful stepped
  obtain ⟨agreeing', evolution⟩ := held.1.step careful.admissible stepped
  exact ⟨agreeing', held.2.trans evolution⟩

/-- A committed entry is never replaced: in every run in which no step relies on more
than the disk holds, with crashes and restarts in any place, the entry that one node
takes to be committed at an index is the one that every node takes to be committed
there at every later moment. -/
theorem committed_entry_permanent (fits : m.Fits)
    (run : Run (step m) (Careful m) (init m 0) s) (later : Run (step m) (Careful m) s s')
    {i j : Int} {n : Nat} (positive : 0 < n) (le : n ≤ (s.node i).commitIndex)
    (le' : n ≤ (s'.node j).commitIndex) :
    ∃ entry, (s.node i).log[n - 1]? = some entry ∧ (s'.node j).log[n - 1]? = some entry := by
  obtain ⟨agreeing, -⟩ := agreeing_of_run (.initial fits _) run
  obtain ⟨agreeing', evolution⟩ := agreeing_of_run agreeing later
  obtain ⟨settled, within⟩ := agreeing.settled_log le
  obtain ⟨settled', within'⟩ := agreeing'.settled_log le'
  have same : (s.node i).log.take n = (s'.node j).log.take n := by
    apply ((settled.evolve evolution).isPrefix settled' agreeing'.safety.safe _).eq_of_length
    · simp [within, within']
    · simp [within, within']
  have below : n - 1 < n := by omega
  refine ⟨(s.node i).log[n - 1], List.getElem?_eq_getElem _, ?_⟩
  rw [← List.getElem?_take_of_lt below, ← same, List.getElem?_take_of_lt below]
  exact List.getElem?_eq_getElem _

/-- Node `1` leads term `2` after node `0`, holds the command node `0` committed, and
commits one of its own with node `2`. -/
def secondLeader : List Action :=
  [.heartbeat 0, .sendAppendEntries 0 1 1 1,
    .receive (.appendEntries 0 1 ⟨1, 0, 1, 1, [], 1⟩) {},
    .electionTimeout 1 {}, .campaign 1 2, .sendRequestVote 1 2 2,
    .receive (.requestVote 1 2 ⟨2, 1, 1, 1⟩) {},
    .receive (.requestVoteReply 1 2 2 ⟨2, true⟩) {}, .becomeLeader 1 2,
    .replicate 1 [8] {}, .sendAppendEntries 1 2 2 1,
    .receive (.appendEntries 1 2 ⟨2, 1, 1, 1, [⟨2, 2, [8]⟩], 1⟩) {},
    .receive (.appendEntriesReply 1 2 ⟨2, 1, 1, 1, [⟨2, 2, [8]⟩], 1⟩ ⟨2, false⟩) {},
    .sendAppendEntries 1 2 2 1,
    .receive (.appendEntries 1 2 ⟨2, 1, 0, 0, [⟨1, 1, [7]⟩, ⟨2, 2, [8]⟩], 1⟩) {},
    .receive (.appendEntriesReply 1 2
      ⟨2, 1, 0, 0, [⟨1, 1, [7]⟩, ⟨2, 2, [8]⟩], 1⟩ ⟨2, true⟩) {},
    .heartbeat 1, .sendAppendEntries 1 2 2 2,
    .receive (.appendEntries 1 2 ⟨2, 1, 2, 2, [], 2⟩) {}, .restart 2]

/-- Permanence applies across a change of leader and a restart: the node that comes
back holds the command that was committed before it had heard of it. -/
theorem committed_entry_permanent_secondLeader :
    ∃ s s', Run (step threeNodes) (Careful threeNodes) (init threeNodes 0) s ∧
      Run (step threeNodes) (Careful threeNodes) s s' ∧
      (s.node 0).commitIndex = 1 ∧ (s.node 2).log = [] ∧ 1 ≤ (s'.node 2).commitIndex ∧
      ∃ entry, (s.node 0).log[0]? = some entry ∧ (s'.node 2).log[0]? = some entry := by
  have reached : ∃ s, Run (step threeNodes) (Careful threeNodes) (init threeNodes 0) s ∧
      (s.node 0).commitIndex = 1 ∧ (s.node 2).log = [] ∧
      (perform (step threeNodes) (Careful threeNodes) s secondLeader).any (fun s' => decide
        (1 ≤ (s'.node 2).commitIndex)) = true :=
    exists_run_of_perform (replication ++
      [.receive (.appendEntriesReply 0 1 ⟨1, 0, 0, 0, [⟨1, 1, [7]⟩], 0⟩ ⟨1, true⟩) {}]) _
      (by decide +kernel)
  obtain ⟨s, run, commit, empty, goesOn⟩ := reached
  obtain ⟨s', later, commit'⟩ := exists_run_of_perform secondLeader _ goesOn
  exact ⟨s, s', run, later, commit, empty, commit',
    committed_entry_permanent (by decide) run later (n := 1) (by decide) commit.ge commit'⟩

/-- Committed entries are on the disks of a majority: at every moment of every run in
which no step relies on more than the disk holds, with crashes and restarts in any
place, everything up to an index that some node takes to be committed is in memory
and on the disk of more than half of the nodes. -/
theorem committed_on_majority_of_disks (fits : m.Fits)
    (run : Run (step m) (Careful m) (init m 0) s) {i : Int} {n : Nat} (positive : 0 < n)
    (le : n ≤ (s.node i).commitIndex) :
    ∃ quorum, Majority (population m) quorum ∧
      ∀ q ∈ quorum, (s.node i).log.take n <+: (s.node q).log ∧
        (s.node i).log.take n <+: (s.node q).persister.log := by
  obtain ⟨agreeing, -⟩ := agreeing_of_run (.initial fits _) run
  obtain ⟨settled, within⟩ := agreeing.settled_log le
  refine settled.exists_majority agreeing.safety.safe (List.ne_nil_of_length_pos ?_)
  rw [List.length_take_of_le within]
  exact positive

/-- The node that restarts among those that hold the command has it on its disk. -/
theorem committed_on_majority_of_disks_restart :
    ∃ s, Run (step threeNodes) (Careful threeNodes) (init threeNodes 0) s ∧
      (s.node 1).commitIndex = 1 ∧
      ∃ quorum, Majority (population threeNodes) quorum ∧
        ∀ q ∈ quorum, (s.node 1).log.take 1 <+: (s.node q).log ∧
          (s.node 1).log.take 1 <+: (s.node q).persister.log := by
  have reached : ∃ s, Run (step threeNodes) (Careful threeNodes) (init threeNodes 0) s ∧
      (s.node 1).commitIndex = 1 :=
    exists_run_of_perform careful _ (by decide +kernel)
  obtain ⟨s, run, commit⟩ := reached
  exact ⟨s, run, commit, committed_on_majority_of_disks (by decide) run (by decide) commit.ge⟩

end Cluster

end DistribKV
