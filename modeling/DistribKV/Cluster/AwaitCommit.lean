import DistribKV.Cluster.ElectionSafety
import DistribKV.Cluster.Ledger

/-!
# Waiting for a command to be committed

`ReplicateCommand` appends an entry and then polls the commit index.  As long as
nothing replaces the entry while the call waits, the index it returns is that of
its own entry; this module says exactly which messages can replace it.  The run
at the end shows a call that reports success for an entry that is gone.
-/

namespace DistribKV

namespace Cluster

open Consensus

/-- The index that a call of node `i` is waiting for. -/
def awaits (i : Int) : Task → Option Nat
  | .awaitCommit node _ _ index => if node = i then some index else none
  | _ => none

/-- The indices that calls of node `i` are waiting for. -/
def awaited (s : Cluster) (i : Int) : List Nat := s.tasks.filterMap (awaits i)

theorem mem_awaited {s : Cluster} {i : Int} {cmd : Bytes} {term index : Nat}
    (waiting : .awaitCommit i cmd term index ∈ s.tasks) : index ∈ s.awaited i :=
  List.mem_filterMap.mpr ⟨_, waiting, by simp [awaits]⟩

/-- The sent entries have the terms of those a log holds in their place, up to
index `n`. -/
def Concurs (whole : List LogEntry) (req : AppendEntriesRequest) (n : Nat) : Prop :=
  ∀ k < req.entries.length, req.prevLogIndex + k < n →
    ∀ held ∈ whole[req.prevLogIndex + k]?, ∀ sent ∈ req.entries[k]?, held.term = sent.term

instance (whole : List LogEntry) (req : AppendEntriesRequest) (n : Nat) :
    Decidable (Concurs whole req n) :=
  inferInstanceAs (Decidable (∀ k < req.entries.length, _ → _))

/-- No message replaces an entry that a call is waiting for: a request to append that
gets past the checks of the handler agrees with the log up to there, and a snapshot that
does ends before it or stands for it. -/
@[reducible] def Uncontested (s : Cluster) : Action → Prop
  | .receive (.appendEntries _ dst req) _ =>
      (s.node dst).currentTerm ≤ req.term ∧ (s.node dst).prevLogOk req = true →
        ∀ n ∈ s.awaited dst, Concurs (s.whole dst) req n
  | .receive (.installSnapshot _ dst req covered) _ =>
      (s.node dst).currentTerm ≤ req.term ∧ (s.node dst).commitIndex < req.lastIncludedIndex ∧
          (s.node dst).contradicts req = false →
        ∀ n ∈ s.awaited dst,
          req.lastIncludedIndex < n ∨ covered[n - 1]? = (s.whole dst)[n - 1]?
  | _ => True

instance (s : Cluster) : DecidablePred s.Uncontested := Action.decidable _

/-- Every waiting call has its entry in the log. -/
def Waiting (s : Cluster) : Prop :=
  ∀ {i cmd term index}, .awaitCommit i cmd term index ∈ s.tasks →
    0 < index ∧ (s.whole i)[index - 1]? = some ⟨index, term, cmd⟩

variable {m : Membership} {threshold : Int} {s s' : Cluster} {a : Action} {o : Outcome}

/-- Appending keeps the entries up to which the request agrees with the log. -/
theorem getElem?_of_accepts {r : Raft} {folded log : List LogEntry} {modified : Bool}
    {req : AppendEntriesRequest} {k : Nat} {entry : LogEntry}
    (based : folded.length = r.logBase) (accepts : r.Accepts req log modified)
    (concurs : Concurs (folded ++ r.log) req (k + 1))
    (found : (folded ++ r.log)[k]? = some entry) : (folded ++ log)[k]? = some entry := by
  rcases Nat.lt_or_ge k r.logBase with below | above
  · rw [List.getElem?_append_left (by omega)] at found ⊢
    exact found
  obtain ⟨k, rfl⟩ := Nat.exists_eq_add_of_le above
  rw [getElem?_whole based] at found ⊢
  have result := accepts.result
  simp only at result
  split at result
  · cases result
    exact found
  next entriesLeft =>
    cases result
    obtain ⟨inside, reach⟩ : r.logBase ≤ req.prevLogIndex ∧
        req.prevLogIndex ≤ r.logBase + r.log.length :=
      accepts.reach.resolve_left fun empty => entriesLeft (by simp [empty])
    obtain ⟨offset, position⟩ := Nat.exists_eq_add_of_le inside
    have offsetEq : req.prevLogIndex - r.logBase = offset := by omega
    rw [offsetEq] at entriesLeft ⊢
    -- the entry lies before the first disagreement
    have before : k < offset + agreeing (r.log.drop offset) req.entries := by
      by_contra past
      have bound := (List.getElem?_eq_some_iff.mp found).1
      have short := lt_of_le_of_ne (agreeing_le_right _ _) entriesLeft
      have inLog : (r.log.drop offset)[agreeing (r.log.drop offset) req.entries]? =
          some r.log[offset + agreeing (r.log.drop offset) req.entries] := by
        rw [List.getElem?_drop, List.getElem?_eq_getElem]
      have inEntries := List.getElem?_eq_getElem short
      refine term_ne_at_agreeing inLog inEntries (concurs _ short (by omega) _ ?_ _ inEntries)
      rw [position, Nat.add_assoc, getElem?_whole based, ← List.getElem?_drop]
      exact inLog
    rw [List.getElem?_append_left (by
      rw [List.length_take]
      have bound := (List.getElem?_eq_some_iff.mp found).1
      omega), List.getElem?_take_of_lt before]
    exact found

/-- The acting node keeps the entries its calls are waiting for. -/
theorem kept_of_effect (shaped : Shaped s) (effect : Effect m s a o)
    (crashFree : a.isRestart = false) (uncontested : s.Uncontested a) {k : Nat}
    {entry : LogEntry} (waited : k + 1 ∈ s.awaited o.node)
    (found : (s.whole o.node)[k]? = some entry) :
    (o.folded ++ o.raft.log)[k]? = some entry := by
  have shape := shaped.node o.node
  cases logTurn_of_effect effect with
  | keeps same folded =>
      rw [folded, same.log]
      exact found
  | elects _ raft folded =>
      rw [folded, raft]
      exact found
  | writes _ _ _ same _ _ _ folded =>
      have bound := (List.getElem?_eq_some_iff.mp found).1
      rw [whole] at bound found
      rw [folded, same.log]
      simp only
      rw [← List.append_assoc, List.getElem?_append_left bound]
      exact found
  | merges _ accepts same _ _ folded _ action =>
      obtain ⟨disk, rfl⟩ := action
      rw [folded, same.log]
      have concurs := uncontested ⟨accepts.current, accepts.consistent⟩ _ waited
      exact getElem?_of_accepts shape.based accepts concurs found
  | @installs src req covered heard inNet installs same _ _ folded _ action =>
      obtain ⟨disk, rfl⟩ := action
      obtain ⟨-, length, -⟩ := shaped.snapshots inNet
      have above : (s.node o.node).logBase < req.lastIncludedIndex :=
        shape.committed.trans_lt installs.fresh
      rw [folded, if_neg above.ne', same.log]
      simp only [Raft.install]
      rcases Nat.lt_or_ge k req.lastIncludedIndex with inside | past
      · rcases uncontested ⟨installs.current, installs.fresh, installs.agrees⟩ _ waited with
          beyond | stands
        · omega
        · rw [List.getElem?_append_left (by omega)]
          exact stands.trans found
      · obtain ⟨k, rfl⟩ := Nat.exists_eq_add_of_le past
        rw [getElem?_whole length, shape.retained.filter_eq_drop above.le, List.getElem?_drop,
          ← found, whole, ← getElem?_whole shape.based]
        congr 1
        omega
  | compacts _ above _ _ same _ folded =>
      have whole_eq : o.folded ++ o.raft.log = s.whole o.node := by
        rw [folded, same.log]
        exact shape.compact_whole above
      rw [whole_eq]
      exact found
  | restarts action => simp [action, Action.isRestart] at crashFree

/-- A call that starts to wait has its entry in the log. -/
theorem waiting_of_effect (shaped : Shaped s) (effect : Effect m s a o) {i : Int}
    {cmd : Bytes} {term index : Nat} (added : .awaitCommit i cmd term index ∈ o.tasks) :
    i = o.node ∧ 0 < index ∧
      (o.folded ++ o.raft.log)[index - 1]? = some ⟨index, term, cmd⟩ := by
  cases effect with
  | @replicate j cmd' disk entry r member leads fresh stored =>
      rcases List.mem_cons.mp added with same | other
      · cases same
        subst fresh
        have sameLog : r.log = (s.node i).log ++
            [⟨(s.node i).log.length + (s.node i).logBase + 1, (s.node i).currentTerm, cmd⟩] := by
          simp [stored, Raft.saved]
        refine ⟨rfl, Nat.succ_pos _, ?_⟩
        simp only [sameLog, Nat.add_sub_cancel]
        rw [Nat.add_comm (s.node i).log.length, getElem?_whole (shaped.based i)]
        simp
      · simp [fanOut] at other
  | _ => simp at added

/-- Waiting calls keep their entries in uncontested steps. -/
theorem Waiting.step (shaped : Shaped s) (waiting : s.Waiting)
    (crashFree : a.isRestart = false) (uncontested : s.Uncontested a)
    (stepped : s.step m a = some s') : s'.Waiting := by
  obtain ⟨o, effect, applies⟩ := effect_of_step stepped
  intro i cmd term index pending
  by_cases acts : i = o.node
  · subst acts
    rw [whole, applies.folded_self, applies.node_self]
    rcases applies.mem_tasks pending with new | old
    · exact (waiting_of_effect shaped effect new).2
    · obtain ⟨positive, found⟩ := waiting old
      have waited : index - 1 + 1 ∈ s.awaited o.node := by
        rw [Nat.sub_add_cancel positive]
        exact mem_awaited old
      exact ⟨positive, kept_of_effect shaped effect crashFree uncontested waited found⟩
  · rw [whole, applies.folded_of_ne acts, applies.node_of_ne acts]
    rcases applies.mem_tasks pending with new | old
    · exact absurd (waiting_of_effect shaped effect new).1 acts
    · exact waiting old

/-- In a run without crashes in which no message replaces an entry that a call is
waiting for, a call of `ReplicateCommand` that returns an index returns that of
its own entry: the commit index covers it, and the log holds there the command
and the term of the call. -/
theorem replicated_command_committed
    (run : Run (step m) (fun s a => a.isRestart = false ∧ s.Uncontested a)
      (init m threshold) s)
    {i : Int} {cmd : Bytes} {term index : Nat}
    (returned : s.step m (.poll i cmd term index) = some s') :
    index ≤ (s.node i).commitIndex ∧
      (s.whole i)[index - 1]? = some ⟨index, term, cmd⟩ := by
  have invariant : Shaped s ∧ s.Waiting := by
    apply run.invariant
    · exact ⟨.initial m threshold, fun pending => by simp [init] at pending⟩
    rintro t u a ⟨shaped, waiting⟩ ⟨crashFree, uncontested⟩ stepped
    refine ⟨shaped.step (fun i restart => ?_) stepped,
      waiting.step shaped crashFree uncontested stepped⟩
    rw [restart] at crashFree
    cases crashFree
  simp only [step] at returned
  split at returned
  next enabled => exact ⟨enabled.2, (invariant.2 enabled.1).2⟩
  · cases returned

/-- Node `0` leads term `1`, replicates a command to node `1` and learns that it
is committed. -/
def acknowledgedCommand : List Action :=
  election ++
    [.replicate 0 [7] {}, .sendAppendEntries 0 1 1 0,
      .receive (.appendEntries 0 1 ⟨1, 0, 0, 0, [⟨1, 1, [7]⟩], 0⟩) {},
      .receive (.appendEntriesReply 0 1 ⟨1, 0, 0, 0, [⟨1, 1, [7]⟩], 0⟩ ⟨1, true⟩) {}]

/-- A call can return in a run of that kind. -/
theorem replicated_command_committed_acknowledged :
    ∃ s, Run (step threeNodes) (fun s a => a.isRestart = false ∧ s.Uncontested a)
        (init threeNodes 0) s ∧
      (s.step threeNodes (.poll 0 [7] 1 1)).isSome ∧
      1 ≤ (s.node 0).commitIndex ∧ (s.whole 0)[0]? = some ⟨1, 1, [7]⟩ := by
  have reached : ∃ s, Run (step threeNodes)
      (fun s a => a.isRestart = false ∧ s.Uncontested a) (init threeNodes 0) s ∧
      (s.step threeNodes (.poll 0 [7] 1 1)).isSome = true :=
    exists_run_of_perform acknowledgedCommand _ (by decide +kernel)
  obtain ⟨s, run, enabled⟩ := reached
  obtain ⟨s', returned⟩ := Option.isSome_iff_exists.mp enabled
  exact ⟨s, run, enabled, replicated_command_committed run returned⟩

/-- Node `0` leads term `1` and waits for its command.  Node `1` leads term `2`,
commits another command with node `2`, and its next request overwrites the log of
node `0` and moves its commit index. -/
def overwrittenCommand : List Action :=
  election ++
    [.replicate 0 [1] {},
      .electionTimeout 1 {}, .campaign 1 2, .sendRequestVote 1 2 2,
      .receive (.requestVote 1 2 ⟨2, 1, 0, 0⟩) {},
      .receive (.requestVoteReply 1 2 2 ⟨2, true⟩) {}, .becomeLeader 1 2,
      .replicate 1 [2] {}, .sendAppendEntries 1 2 2 0,
      .receive (.appendEntries 1 2 ⟨2, 1, 0, 0, [⟨1, 2, [2]⟩], 0⟩) {},
      .receive (.appendEntriesReply 1 2 ⟨2, 1, 0, 0, [⟨1, 2, [2]⟩], 0⟩ ⟨2, true⟩) {},
      .heartbeat 1, .sendAppendEntries 1 0 2 1,
      .receive (.appendEntries 1 0 ⟨2, 1, 0, 0, [⟨1, 2, [2]⟩], 1⟩) {}]

/-- The call returns index `1` although the log holds another command there. -/
theorem overwritten_command_reported :
    ∃ s, Run (step threeNodes) Undisturbed (init threeNodes 0) s ∧
      (s.step threeNodes (.poll 0 [1] 1 1)).isSome ∧
      (s.whole 0)[0]? = some ⟨1, 2, [2]⟩ :=
  exists_run_of_perform overwrittenCommand _ (by decide +kernel)

end Cluster

end DistribKV
