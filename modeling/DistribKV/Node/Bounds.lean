import DistribKV.Node.Pipeline
import DistribKV.Node.Terms

/-!
# Bounds on the log and on the apply indices

Terms along a log do not decrease and stay behind the node's own, and the apply
index stays between the base of the log and the commit index.  Both are facts
about one node in an environment that behaves: requests carry entries in order,
and the application only compacts up to an index it has seen.
-/

namespace DistribKV

/-- Terms do not decrease along the log and none is ahead of the node. -/
structure Raft.Ordered (r : Raft) : Prop where
  sorted : r.log.Pairwise fun earlier later => earlier.term ≤ later.term
  bounded : ∀ entry ∈ r.log, entry.term ≤ r.currentTerm

/-- The same for the entries of a request, which follow an entry of the given
previous term. -/
structure AppendEntriesRequest.Ordered (req : AppendEntriesRequest) : Prop where
  sorted : req.entries.Pairwise fun earlier later => earlier.term ≤ later.term
  above : ∀ entry ∈ req.entries, req.prevLogTerm ≤ entry.term
  bounded : ∀ entry ∈ req.entries, entry.term ≤ req.term

/-! ## Requests and logs -/

/-- As far as two logs agree, they carry the same terms. -/
theorem map_term_take_agreeing (log entries : List LogEntry) :
    (log.take (agreeing log entries)).map (·.term) =
      (entries.take (agreeing log entries)).map (·.term) := by
  fun_induction agreeing log entries with
  | case1 held log sent entries same ih => simp [same, ih]
  | case2 => simp
  | case3 => simp

namespace Raft

variable {r : Raft} {req : AppendEntriesRequest} {log : List LogEntry} {modified : Bool}

/-- The terms that an accepted request leaves: those of the log, or those of the
log up to the previous entry followed by those sent. -/
theorem Accepts.map_term (accepts : Accepts r req log modified) :
    log = r.log ∨
      log.map (·.term) =
        (r.log.take (req.prevLogIndex - r.logBase) ++ req.entries).map (·.term) := by
  have result := accepts.result
  generalize req.prevLogIndex - r.logBase = offset at *
  simp only at result
  split at result
  · cases result
    exact .inl rfl
  · cases result
    right
    rw [List.take_add, List.append_assoc, List.map_append, List.map_append, List.map_append,
      map_term_take_agreeing, ← List.map_append, List.take_append_drop]

/-- Every entry up to the previous one is at most of the previous term. -/
theorem Accepts.le_prevLogTerm (accepts : Accepts r req log modified) (ordered : r.Ordered)
    {entry : LogEntry} (before : entry ∈ r.log.take (req.prevLogIndex - r.logBase)) :
    entry.term ≤ req.prevLogTerm := by
  rcases Nat.eq_zero_or_pos req.prevLogIndex with zero | positive
  · simp [zero] at before
  · obtain ⟨k, held, position, found, sameTerm⟩ :=
      entry_of_prevLogOk accepts.consistent positive
    rw [← sameTerm]
    obtain ⟨inLog, rfl⟩ := List.getElem?_eq_some_iff.mp found
    rw [position, show r.logBase + k + 1 - r.logBase = k + 1 by omega,
      ← List.take_concat_get' _ _ inLog] at before
    have sorted := ordered.sorted.sublist (List.take_sublist (k + 1) r.log)
    rw [← List.take_concat_get' _ _ inLog, List.pairwise_append] at sorted
    rcases List.mem_append.mp before with earlier | last
    · exact sorted.2.2 entry earlier _ (List.mem_singleton_self _)
    · rw [List.mem_singleton.mp last]

/-- An accepted request keeps the log in order. -/
theorem Accepts.ordered (accepts : Accepts r req log modified) (ordered : r.Ordered)
    (sent : req.Ordered) :
    log.Pairwise (fun earlier later => earlier.term ≤ later.term) ∧
      ∀ entry ∈ log, entry.term ≤ req.term := by
  rcases accepts.map_term with rfl | terms
  · exact ⟨ordered.sorted, fun entry member =>
      (ordered.bounded entry member).trans accepts.current⟩
  have merged : (r.log.take (req.prevLogIndex - r.logBase) ++ req.entries).Pairwise
      fun earlier later => earlier.term ≤ later.term := by
    rw [List.pairwise_append]
    exact ⟨ordered.sorted.sublist (List.take_sublist _ _), sent.sorted,
      fun earlier before later member =>
        (accepts.le_prevLogTerm ordered before).trans (sent.above later member)⟩
  constructor
  · rw [← List.pairwise_map (f := LogEntry.term) (R := (· ≤ ·))] at merged ⊢
    rw [terms]
    exact merged
  · intro entry member
    have inTerms : entry.term ∈ log.map (·.term) := List.mem_map_of_mem member
    rw [terms, List.mem_map] at inTerms
    obtain ⟨other, inMerged, same⟩ := inTerms
    rw [← same]
    rcases List.mem_append.mp inMerged with held | new
    · exact (ordered.bounded other (List.mem_of_mem_take held)).trans accepts.current
    · exact sent.bounded other new

/-- Entries that the collecting loop copies follow each other in the log. -/
theorem collectEntries_sublist (log : List LogEntry) (base start n : Nat) :
    (collectEntries log base (List.range' start n)).Sublist (log.drop (start - base - 1)) := by
  rcases Nat.lt_or_ge base start with above | below
  · rw [collectEntries_eq log above]
    exact List.take_sublist _ _
  · rw [collectEntries_below log below]
    exact List.nil_sublist _

/-- A node whose log is in order builds requests that are in order. -/
theorem Ordered.request (ordered : r.Ordered) (nextIdx commitIdx : Nat) :
    (r.appendEntriesRequest nextIdx r.currentTerm commitIdx).Ordered := by
  have collected (start n : Nat) (entry : LogEntry)
      (member : entry ∈ collectEntries r.log r.logBase (List.range' start n)) :
      entry ∈ r.log.drop (start - r.logBase - 1) :=
    (collectEntries_sublist r.log r.logBase start n).subset member
  refine ⟨?_, ?_, ?_⟩
  · exact ordered.sorted.sublist
      ((collectEntries_sublist _ _ _ _).trans (List.drop_sublist _ _))
  · intro entry member
    simp only [appendEntriesRequest] at member ⊢
    split at member
    next later =>
      split at member
      next held found =>
        simp only [later, if_true]
        have nonneg : 0 ≤ ((nextIdx - 1 : Nat) : Int) - r.logBase - 1 := by
          by_contra negative
          rw [entryAt_of_neg (by omega)] at found
          cases found
        obtain ⟨k, rfl⟩ : ∃ k, nextIdx = r.logBase + k + 2 :=
          ⟨nextIdx - r.logBase - 2, by omega⟩
        have offset : ((r.logBase + k + 2 - 1 : Nat) : Int) - r.logBase - 1 = (k : Nat) := by
          omega
        rw [offset, entryAt_natCast] at found
        obtain ⟨inLog, rfl⟩ := List.getElem?_eq_some_iff.mp found
        have follows := collected _ _ entry member
        rw [show r.logBase + k + 2 - r.logBase - 1 = k + 1 by omega] at follows
        have sorted := ordered.sorted.sublist (List.drop_sublist k r.log)
        rw [List.drop_eq_getElem_cons inLog, List.pairwise_cons] at sorted
        exact sorted.1 entry follows
      next missing =>
        simp only [later, if_true]
        exact Nat.zero_le _
    next first =>
      simp only [first, if_false]
      exact Nat.zero_le _
  · intro entry member
    exact ordered.bounded entry (List.mem_of_mem_drop (collected _ _ entry member))

/-- Dropping entries and moving to a higher term keep a log in order. -/
theorem Ordered.of_sublist {r' : Raft} (ordered : r.Ordered) (fewer : r'.log.Sublist r.log)
    (ahead : r.currentTerm ≤ r'.currentTerm) : r'.Ordered where
  sorted := ordered.sorted.sublist fewer
  bounded entry member := (ordered.bounded entry (fewer.subset member)).trans ahead

/-- The handler keeps the log in order. -/
theorem Ordered.appendEntries {r' : Raft} {disk : Disk}
    {reply : Except String AppendEntriesResponse} (ordered : r.Ordered)
    (called : r.appendEntries req disk = some (r', reply)) (sent : req.Ordered) :
    r'.Ordered := by
  rcases appendEntries_cases called with
    ⟨yields, -⟩ | ⟨heard, log, modified, yields, term, accepts, outcome⟩
  · exact ordered.of_sublist (yields.log ▸ .refl _) yields.term_le
  · obtain ⟨sorted, bounded⟩ := accepts.ordered ordered sent
    rw [← term] at bounded
    rcases outcome with ⟨-, rfl, -⟩ | ⟨commitCh, rfl, -⟩
    · exact ⟨sorted, bounded⟩
    · exact ⟨sorted, bounded⟩

end Raft

/-! ## Steps of a node -/

namespace Node

/-- The environment behaves: requests carry entries in order, the application
compacts only what has been applied, and the node does not crash. -/
def Served (n : Node) : NodeAction → Prop
  | .appendEntries req _ => req.Ordered
  | .snapshot index _ _ => index ≤ n.raft.lastApplied
  | .restart => False
  | _ => True

variable {n n' : Node} {a : NodeAction}

theorem Served.running (served : n.Served a) : a ≠ .restart := by
  rintro rfl
  exact served

/-- Every step keeps the log in order. -/
theorem ordered_step (ordered : n.raft.Ordered) (served : n.Served a)
    (stepped : n.step a = some n') : n'.raft.Ordered := by
  have ahead := currentTerm_mono_of_effect (effect_of_step stepped) served.running
  cases effect_of_step stepped with
  | yield yields => exact ordered.of_sublist (yields.log ▸ .refl _) ahead
  | stand stood =>
      rcases stood with rfl | rfl
      · exact ordered.of_sublist (.refl _) ahead
      · exact ordered.of_sublist (.refl _) ahead
  | @grant req disk r grants =>
      have log := (Raft.Yields.adoptTerm n.raft req.term).log
      rw [grants.result] at ahead ⊢
      exact ordered.of_sublist (log ▸ .refl _) ahead
  | lead led =>
      subst led
      exact ordered.of_sublist (.refl _) ahead
  | @write cmd disk entry r commitIndex commitCh fresh stored =>
      subst stored
      have term : entry.term = n.raft.currentTerm := by rw [fresh]
      constructor
      · refine List.pairwise_append.mpr ⟨ordered.sorted, List.pairwise_singleton _ _, ?_⟩
        intro earlier member later last
        rw [List.mem_singleton.mp last, term]
        exact ordered.bounded earlier member
      · intro held member
        rcases List.mem_append.mp member with old | new
        · exact ordered.bounded held old
        · rw [List.mem_singleton.mp new]
          exact term.le
  | append =>
      simp only [step] at stepped
      split at stepped
      · cases stepped
      next called =>
        cases stepped
        exact ordered.appendEntries called served
  | compact _ _ _ compacted =>
      subst compacted
      exact ordered.of_sublist (List.drop_sublist _ _) ahead
  | install _ installs installed =>
      subst installed
      refine ordered.of_sublist ?_ ahead
      simp only [Raft.install, installs.yields.log]
      exact List.filter_sublist
  | take => exact ordered.of_sublist (.refl _) ahead
  | send => exact ordered.of_sublist (.refl _) ahead
  | consume => exact ordered.of_sublist (.refl _) ahead
  | restart => exact served.elim

/-- The apply index lies between base and commit index, and nothing on its way to
the application is ahead of it. -/
structure Applied (n : Node) : Prop where
  based : n.raft.logBase ≤ n.raft.lastApplied
  committed : n.raft.lastApplied ≤ n.raft.commitIndex
  held : ∀ msg, n.applying = some msg → msg.index ≤ n.raft.lastApplied
  queued : ∀ msg ∈ n.raft.applyCh, msg.index ≤ n.raft.lastApplied

/-- A step that moves neither base nor apply index nor channel. -/
theorem Applied.of_same (applied : n.Applied) (base : n'.raft.logBase = n.raft.logBase)
    (index : n'.raft.lastApplied = n.raft.lastApplied)
    (commit : n.raft.commitIndex ≤ n'.raft.commitIndex)
    (applying : n'.applying = n.applying) (channel : n'.raft.applyCh = n.raft.applyCh) :
    n'.Applied ∧ n.raft.lastApplied ≤ n'.raft.lastApplied := by
  refine ⟨⟨?_, ?_, ?_, ?_⟩, index.ge⟩
  · rw [base, index]
    exact applied.based
  · rw [index]
    exact applied.committed.trans commit
  · rw [applying, index]
    exact applied.held
  · rw [channel, index]
    exact applied.queued

/-- Every step keeps these bounds, and the apply index does not go down. -/
theorem Applied.of_effect (applied : n.Applied) (placed : n.raft.Placed)
    (served : n.Served a) (effect : NodeEffect n a n') :
    n'.Applied ∧ n.raft.lastApplied ≤ n'.raft.lastApplied := by
  cases effect with
  | yield yields =>
      exact applied.of_same yields.logBase yields.lastApplied yields.commitIndex.ge rfl
        yields.applyCh
  | stand stood =>
      rcases stood with rfl | rfl
      · exact applied.of_same rfl rfl le_rfl rfl rfl
      · exact applied.of_same rfl rfl le_rfl rfl rfl
  | @grant req disk r grants =>
      have yields := Raft.Yields.adoptTerm n.raft req.term
      rw [grants.result]
      exact applied.of_same yields.logBase yields.lastApplied yields.commitIndex.ge rfl
        yields.applyCh
  | lead led commit =>
      subst led
      exact applied.of_same rfl rfl commit rfl rfl
  | write _ stored commit =>
      subst stored
      exact applied.of_same rfl rfl commit rfl rfl
  | append yields _ stored _ commit =>
      subst stored
      exact applied.of_same yields.logBase yields.lastApplied commit rfl yields.applyCh
  | compact _ _ _ compacted =>
      subst compacted
      exact ⟨⟨served, applied.committed, applied.held, applied.queued⟩, le_rfl⟩
  | @install req disk heard r persister queued _ installs installed _ queue =>
      subst installed
      -- an installation only moves forward
      have forward : n.raft.lastApplied ≤ req.lastIncludedIndex :=
        applied.committed.trans installs.fresh.le
      refine ⟨⟨le_rfl, ?_, ?_, ?_⟩, forward⟩
      · simp only [Raft.install]
        split <;> omega
      · exact fun msg held => (applied.held msg held).trans forward
      · intro msg member
        rcases List.mem_append.mp member with old | new
        · exact (applied.queued msg old).trans forward
        · rcases queue with ⟨rfl, -⟩ | rfl
          · cases new
          · rw [List.mem_singleton.mp new]
            exact le_rfl
  | take idle pending found =>
      obtain ⟨index, -⟩ := placed.index_of_found found
      refine ⟨⟨applied.based.trans (Nat.le_succ _), pending, ?_, ?_⟩, Nat.le_succ _⟩
      · rintro msg ⟨⟩
        exact index.le
      · exact fun msg member => (applied.queued msg member).trans (Nat.le_succ _)
  | send held =>
      refine ⟨⟨applied.based, applied.committed, ?_, ?_⟩, le_rfl⟩
      · rintro msg ⟨⟩
      · intro msg member
        rcases List.mem_append.mp member with old | new
        · exact applied.queued msg old
        · rw [List.mem_singleton.mp new]
          exact applied.held _ held
  | consume =>
      exact ⟨⟨applied.based, applied.committed, applied.held,
        fun msg member => applied.queued msg (List.mem_of_mem_tail member)⟩, le_rfl⟩
  | restart => exact served.elim

end Node

end DistribKV
