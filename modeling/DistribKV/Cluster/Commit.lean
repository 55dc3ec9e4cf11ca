import DistribKV.Cluster.Safety
import DistribKV.Cluster.Peers

/-!
# Commit indices

Leaders count only acknowledgements that were given, so an index a leader commits
is committed in the register.  Commit indices then spread with the requests of
the leader, and the prefix that a node takes to be committed always belongs to a
committed part of some book.
-/

namespace DistribKV

theorem le_ackOf {history : List Event} {i : Int} {term n : Nat}
    (recorded : .acknowledged i term n ∈ history) : n ≤ ackOf history i term := by
  induction history with
  | nil => cases recorded
  | cons event history ih =>
      rcases List.mem_cons.mp recorded with rfl | older
      · simp [ackOf]
      · have le := ih older
        cases event with
        | acknowledged j term' n' =>
            simp only [ackOf]
            by_cases same : i = j
            · subst same
              rw [Function.update_self]
              by_cases here : term = term'
              · subst here
                rw [Function.update_self]
                exact le.trans (le_max_left _ _)
              · rwa [Function.update_of_ne here]
            · rwa [Function.update_of_ne same]
        | _ => exact le

namespace Cluster

open Consensus

/-- What leaders know about their followers and about themselves. -/
structure Replicating (view : View) (s : Cluster) : Prop where
  replies : ∀ {src dst req resp}, .appendEntriesReply src dst req resp ∈ s.net →
    resp.success = true →
      req.prevLogIndex + req.entries.length ≤ ackOf s.history dst req.term
  matched : ∀ i, (s.node i).state = .leader → ∀ p ∈ (s.node i).peers,
    p.matchIndex ≤ ackOf s.history p.id (s.node i).currentTerm
  own : ∀ i, (s.node i).state = .leader → ∀ part,
    (view.register s).OwnPart LogEntry.term (s.node i).currentTerm part →
      part.length ≤ ackOf s.history i (s.node i).currentTerm ∧
        view.stable (s.node i) = (s.node i).log

variable {m : Membership} {view : View} {s s' : Cluster} {a : Action} {o : Outcome}

namespace Replicating

theorem initial (m : Membership) (view : View) : Replicating view (init m 0) where
  replies inNet := by simp [init] at inNet
  matched _ leads := by
    simp [init, Raft.newRaft, Raft.loadPersistedState, Raft.fresh, Raft.start] at leads
  own _ leads := by
    simp [init, Raft.newRaft, Raft.loadPersistedState, Raft.fresh, Raft.start] at leads

theorem replies_of_effect (replicating : Replicating view s) (effect : Effect m s a o)
    {src dst : Int} {req : AppendEntriesRequest} {resp : AppendEntriesResponse}
    (sent : .appendEntriesReply src dst req resp ∈ o.packets)
    (success : resp.success = true) :
    .acknowledged dst req.term (req.prevLogIndex + req.entries.length) ∈ o.events ∨
      req.prevLogIndex + req.entries.length ≤ ackOf s.history dst req.term := by
  cases effect with
  | duplicate inNet =>
      cases List.mem_singleton.mp sent
      exact .inr (replicating.replies inNet success)
  | refuseAppend =>
      cases List.mem_singleton.mp sent
      cases success
  | append =>
      cases List.mem_singleton.mp sent
      exact .inl (List.mem_singleton_self _)
  | install _ _ _ replies =>
      obtain ⟨_, impossible⟩ := replies _ sent
      cases impossible
  | _ => simp at sent

theorem matched_of_step (flat : Flat s) (replicating : Replicating view s)
    (stepped : s.step m a = some s') (effect : Effect m s a o) (applies : Applies s o s')
    (leads : (s'.node o.node).state = .leader) :
    ∀ p ∈ (s'.node o.node).peers,
      p.matchIndex ≤ ackOf s.history p.id (s'.node o.node).currentTerm := by
  intro p member
  have source := matchSource_of_step stepped member
  rw [applies.node_self] at leads member ⊢
  cases turn_of_effect effect with
  | keeps keeps =>
      obtain ⟨sameTerm, sameState⟩ := keeps.of_ne_follower (by simp [leads])
      have wasLeader := sameState ▸ leads
      rw [sameTerm]
      cases source with
      | reset zero => exact zero ▸ Nat.zero_le _
      | kept known id index =>
          rw [index, ← id]
          exact replicating.matched o.node wasLeader _ known
      | appended inNet success leads index =>
          rw [index, leads.2]
          exact replicating.replies inNet success
      | installed inNet => exact absurd inNet flat.replies
  | stands _ _ raft =>
      rcases raft with raft | raft <;> simp [raft, Raft.enterCandidate, Raft.saved] at leads
  | leads _ _ raft =>
      rw [raft] at member
      obtain ⟨p', -, rfl⟩ := List.mem_map.mp member
      exact Nat.zero_le _
  | restarts _ raft =>
      rw [raft, Raft.restart_state] at leads
      cases leads

/-- A leader acknowledges and relies on what it writes. -/
theorem own_of_effect (safety : Safety m view s) (replicating : Replicating view s)
    (admissible : Admissible m view s a) (effect : Effect m s a o) (applies : Applies s o s')
    (evolution : (view.register s).Evolves (view.register s'))
    (leads : o.raft.state = .leader) {part : List LogEntry}
    (own : (view.register s').OwnPart LogEntry.term o.raft.currentTerm part) :
    part.length ≤ ackOf s'.history o.node o.raft.currentTerm ∧
      view.stable o.raft = o.raft.log := by
  have ledger := ledger_of_applies applies
  -- a leader that keeps its log and its term keeps what it knows about both
  have kept : (s.node o.node).state = .leader →
      o.raft.currentTerm = (s.node o.node).currentTerm →
      o.raft.log = (s.node o.node).log → s'.ledger = s.ledger →
      part.length ≤ ackOf s'.history o.node o.raft.currentTerm ∧
        view.stable o.raft = o.raft.log := by
    intro wasLeader sameTerm sameLog sameLedger
    have was : (view.register s).OwnPart LogEntry.term (s.node o.node).currentTerm part := by
      rw [← sameTerm]
      simpa only [Register.OwnPart, View.register, sameLedger] using own
    obtain ⟨acked, reliable⟩ := replicating.own o.node wasLeader part was
    rw [sameTerm]
    refine ⟨acked.trans (evolution.ack _ _), ?_⟩
    rcases (safety.relies admissible effect).2 with same | fresh
    · rw [same, reliable, sameLog]
    · exact fresh
  cases safety.turn effect with
  | keeps log same role =>
      obtain ⟨wasLeader, sameTerm⟩ := role leads
      exact kept wasLeader sameTerm log (ledger.trans same)
  | @merges src req inNet _ sameTerm log role same =>
      -- it is sent parts of its own book only
      obtain ⟨wasLeader, still⟩ := role leads
      obtain ⟨-, book⟩ := safety.matching.leading _ wasLeader
      rw [← still, sameTerm, safety.flat.whole_eq] at book
      refine kept wasLeader still ?_ (ledger.trans same)
      rw [log, merge, if_pos]
      rw [book]
      exact List.take_prefix _ _
  | elects candidate raft _ recorded elected =>
      have vacant := safety.vacant admissible effect recorded
      obtain ⟨-, inBook, before, entry, rfl, term⟩ := own
      simp only [View.register, ledger, elected, raft, Raft.enterLeader,
        Ledger.elect_book_self] at inBook term
      have lt := safety.earlier vacant entry (inBook.subset (by simp))
      omega
  | writes wasLeader index term log sameTerm stored acknowledged written =>
      have recorded := le_ackOf (applies.mem_history.mpr (.inl acknowledged))
      have inBook := own.2.1.length_le
      simp only [View.register, ledger, written] at inBook
      rw [sameTerm, ← term, Ledger.write_book_self, term,
        (safety.matching.leading _ wasLeader).2, safety.flat.whole_eq, List.length_append,
        List.length_singleton, ← index] at inBook
      refine ⟨?_, (view.saved o.raft stored.1 stored.2).2⟩
      rw [sameTerm, ← term]
      exact inBook.trans recorded
  | restarts _ raft =>
      rw [raft, Raft.restart_state] at leads
      cases leads

theorem step (safety : Safety m view s) (replicating : Replicating view s)
    (admissible : Admissible m view s a) (stepped : s.step m a = some s')
    (effect : Effect m s a o) (applies : Applies s o s')
    (grows : GrowsBy o.node s.ledger s'.ledger)
    (evolution : (view.register s).Evolves (view.register s')) : Replicating view s' := by
  have mono : ∀ i term, ackOf s.history i term ≤ ackOf s'.history i term := evolution.ack
  refine ⟨fun inNet success => ?_, fun i leads p member => ?_, fun i leads part own => ?_⟩
  · rcases applies.mem_net inNet with new | old
    · rcases replicating.replies_of_effect effect new success with recorded | known
      · exact le_ackOf (applies.mem_history.mpr (.inl recorded))
      · exact known.trans (mono _ _)
    · exact (replicating.replies old success).trans (mono _ _)
  · by_cases acts : i = o.node
    · subst acts
      exact (replicating.matched_of_step safety.flat stepped effect applies leads p member).trans
        (mono _ _)
    · rw [applies.node_of_ne acts] at leads member ⊢
      exact (replicating.matched i leads p member).trans (mono _ _)
  · by_cases acts : i = o.node
    · subst acts
      rw [applies.node_self] at leads own ⊢
      exact replicating.own_of_effect safety admissible effect applies evolution leads own
    · rw [applies.node_of_ne acts] at leads own ⊢
      obtain ⟨leader, -⟩ := safety.matching.leading i leads
      have was : (view.register s).OwnPart LogEntry.term (s.node i).currentTerm part :=
        ⟨Option.isSome_iff_exists.mpr ⟨_, leader⟩,
          grows.books _ _ leader acts ▸ own.2.1, own.2.2⟩
      obtain ⟨acked, reliable⟩ := replicating.own i leads part was
      exact ⟨acked.trans (mono _ _), reliable⟩

end Replicating

/-! ## Counting replicas -/

/-- The members that hold the log of leader `i` up to `n`, as far as it knows. -/
def holders (s : Cluster) (i : Int) (n : Nat) : Finset Int :=
  insert i (((s.node i).peers.filter fun p => decide (p.matchIndex ≥ n)).map (·.id)).toFinset

theorem Static.majority_holders {threshold : Int} (static : Static m threshold s) {i : Int}
    (member : i ∈ m.ids) {n : Nat}
    (enough : (s.node i).replicas n > ((s.node i).peers.length + 1) / 2) :
    Majority (population m) (s.holders i n) := by
  have ids := static.peers i
  have subset : ∀ {q}, q ∈ ((s.node i).peers.filter fun p =>
      decide (p.matchIndex ≥ n)).map (·.id) → q ∈ m.ids.filter (· ≠ i) := by
    intro q found
    obtain ⟨p, held, rfl⟩ := List.mem_map.mp found
    rw [← ids]
    exact List.mem_map_of_mem (List.mem_of_mem_filter held)
  have nodup : (((s.node i).peers.filter fun p =>
      decide (p.matchIndex ≥ n)).map (·.id)).Nodup := by
    have all : ((s.node i).peers.map (·.id)).Nodup := ids ▸ m.nodup.filter _
    exact all.sublist (List.filter_sublist.map _)
  have self : i ∉ (((s.node i).peers.filter fun p =>
      decide (p.matchIndex ≥ n)).map (·.id)).toFinset := by
    intro found
    have other := List.mem_filter.mp (subset (List.mem_toFinset.mp found))
    simp at other
  constructor
  · intro q found
    rw [population, List.mem_toFinset]
    rcases Finset.mem_insert.mp found with rfl | peer
    · exact member
    · exact List.mem_of_mem_filter (subset (List.mem_toFinset.mp peer))
  · rw [static.card_population member, holders, Finset.card_insert_of_notMem self,
      List.toFinset_card_of_nodup nodup, List.length_map, ← List.countP_eq_length_filter]
    unfold Raft.replicas at enough
    omega

/-- An index that a leader commits by counting replicas is committed. -/
theorem committed_of_majority (safety : Safety m view s) (replicating : Replicating view s)
    {i : Int} {entry : LogEntry} (commits : (s.node i).CommitsByMajority entry) :
    (s.node i).commitIndex ≤ (s.node i).log.length ∧
      (view.register s).Committed LogEntry.term (population m) (s.node i).currentTerm
        ((s.node i).log.take (s.node i).commitIndex) := by
  obtain ⟨leads, positive, found, enough, term⟩ := commits
  obtain ⟨leader, book⟩ := safety.matching.leading i leads
  obtain ⟨n, position⟩ : ∃ n, (s.node i).commitIndex = n + 1 :=
    ⟨(s.node i).commitIndex - 1, by omega⟩
  rw [position] at found enough ⊢
  have offset : ((n + 1 : Nat) : Int) - (s.node i).logBase - 1 = (n : Nat) := by
    rw [safety.flat.logBase]
    omega
  rw [offset, entryAt_natCast] at found
  obtain ⟨bound, rfl⟩ := List.getElem?_eq_some_iff.mp found
  have length : ((s.node i).log.take (n + 1)).length = n + 1 :=
    List.length_take_of_le bound
  have own : (view.register s).OwnPart LogEntry.term (s.node i).currentTerm
      ((s.node i).log.take (n + 1)) := by
    refine ⟨Option.isSome_iff_exists.mpr ⟨_, leader⟩, ?_, (s.node i).log.take n, _,
      (List.take_append_getElem bound).symm, term⟩
    simp only [View.register, book, safety.flat.whole_eq]
    exact List.take_prefix _ _
  refine ⟨bound, own, s.holders i (n + 1),
    safety.static.majority_holders (safety.static.leader_mem leads) enough, ?_⟩
  intro q member
  rcases Finset.mem_insert.mp member with rfl | peer
  · exact (replicating.own q leads _ own).1
  · obtain ⟨p, held, rfl⟩ := List.mem_map.mp (List.mem_toFinset.mp peer)
    obtain ⟨inPeers, reached⟩ := List.mem_filter.mp held
    rw [length]
    exact (of_decide_eq_true reached).trans (replicating.matched i leads p inPeers)

/-! ## Committed prefixes -/

/-- The index is covered by a part committed in a term up to the given one. -/
def Sanctioned (m : Membership) (view : View) (s : Cluster) (term n : Nat) : Prop :=
  n = 0 ∨ ∃ t part, (view.register s).Committed LogEntry.term (population m) t part ∧
    t ≤ term ∧ n ≤ part.length

/-- The node holds, and relies on, the first `n` entries of a committed part. -/
def Covers (m : Membership) (view : View) (s : Cluster) (r : Raft) (n : Nat) : Prop :=
  n = 0 ∨ ∃ t part, (view.register s).Committed LogEntry.term (population m) t part ∧
    t ≤ r.currentTerm ∧ n ≤ part.length ∧ part.take n <+: r.log ∧
      part.take n <+: view.stable r

theorem Covers.sanctioned {r : Raft} {n : Nat} (covers : Covers m view s r n) :
    Sanctioned m view s r.currentTerm n := by
  rcases covers with zero | ⟨t, part, committed, le, reaches, -⟩
  · exact .inl zero
  · exact .inr ⟨t, part, committed, le, reaches⟩

theorem Sanctioned.evolve (evolution : (view.register s).Evolves (view.register s'))
    {term n : Nat} (sanctioned : Sanctioned m view s term n) :
    Sanctioned m view s' term n := by
  rcases sanctioned with zero | ⟨t, part, committed, rest⟩
  · exact .inl zero
  · exact .inr ⟨t, part, evolution.committed committed, rest⟩

theorem Covers.evolve (evolution : (view.register s).Evolves (view.register s'))
    {r : Raft} {n : Nat} (covers : Covers m view s r n) : Covers m view s' r n := by
  rcases covers with zero | ⟨t, part, committed, rest⟩
  · exact .inl zero
  · exact .inr ⟨t, part, evolution.committed committed, rest⟩

/-- A part committed up to a led term is in the book of that term. -/
theorem Safety.committed_in_book (safety : Safety m view s) {t term : Nat}
    {part : List LogEntry}
    (committed : (view.register s).Committed LogEntry.term (population m) t part)
    (le : t ≤ term) (led : (s.ledger.leader term).isSome) : part <+: s.ledger.book term := by
  rcases Nat.eq_or_lt_of_le le with rfl | lt
  · exact committed.1.2.1
  · exact safety.safe.committed_book committed lt led

/-- Unless it restarts, the acting node goes on covering what it covers. -/
theorem Covers.of_effect (safety : Safety m view s) (admissible : Admissible m view s a)
    (effect : Effect m s a o) {n : Nat} (covers : Covers m view s (s.node o.node) n) :
    Covers m view s o.raft n ∨
      a = .restart o.node ∧ o.raft = (s.node o.node).restart := by
  rcases term_le_or_restart effect with termLe | restart
  swap
  · exact .inr restart
  rcases covers with zero | ⟨t, part, committed, le, reaches, inLog, inStable⟩
  · exact .inl (.inl zero)
  have held : part.take n <+: o.raft.log ∨
      a = .restart o.node ∧ o.raft = (s.node o.node).restart := by
    cases safety.turn effect with
    | keeps log => exact .inl (log ▸ inLog)
    | elects _ raft => exact .inl (raft ▸ inLog)
    | writes _ _ _ log => exact .inl (log ▸ inLog.trans (List.prefix_append _ _))
    | merges inNet current _ log =>
        obtain ⟨led, -⟩ := safety.matching.requests inNet
        have inBook := safety.committed_in_book committed (le.trans current) led
        exact .inl (log ▸ prefix_merge inLog ((List.take_prefix _ _).trans inBook)
          (List.take_prefix _ _))
    | restarts action raft => exact .inr ⟨action, raft⟩
  refine held.imp_left fun held => ?_
  refine .inr ⟨t, part, committed, le.trans termLe, reaches, held, ?_⟩
  rcases (safety.relies admissible effect).2 with same | fresh
  · exact same ▸ inStable
  · exact fresh ▸ held

/-- What nodes, messages and the history say about commitment. -/
structure Committing (m : Membership) (view : View) (s : Cluster) : Prop where
  tasks : ∀ {i peer term n}, .sendAppendEntries i peer term n ∈ s.tasks →
    Sanctioned m view s term n
  requests : ∀ {src dst req}, .appendEntries src dst req ∈ s.net →
    Sanctioned m view s req.term req.leaderCommit
  replies : ∀ {src dst req resp}, .appendEntriesReply src dst req resp ∈ s.net →
    Sanctioned m view s req.term req.leaderCommit
  nodes : ∀ i, Covers m view s (s.node i) (s.node i).commitIndex
  events : ∀ {i term n log}, .committed i term n log ∈ s.history → n ≤ log.length ∧
    (view.register s).Committed LogEntry.term (population m) term (log.take n)

namespace Committing

theorem initial (m : Membership) (view : View) : Committing m view (init m 0) where
  tasks pending := by simp [init] at pending
  requests inNet := by simp [init] at inNet
  replies inNet := by simp [init] at inNet
  nodes _ := .inl rfl
  events member := by simp [init] at member

/-- A restarted node takes its stored log to be committed, and it is. -/
theorem covers_of_restart (safety : Safety m view s) (committing : Committing m view s)
    {i : Int} (resumes : Resumes view s i) :
    Covers m view s (s.node i).restart (s.node i).restart.commitIndex := by
  have stored := safety.stored i
  have commitIndex : (s.node i).restart.commitIndex = (s.node i).persister.log.length := by
    have index := stored.aligned.getLast_index
    rw [Nat.zero_add] at index
    rw [Raft.restart, Raft.newRaft_of_noSnapshot _ (safety.flat.snapshotFile i), ← index]
    rfl
  rw [commitIndex]
  rcases resumes.commit with empty | ⟨term, short | ⟨j, behind, held, short⟩⟩
  · exact .inl (by rw [empty]; rfl)
  · rcases committing.nodes i with zero | ⟨t, part, committed, le, reaches, -, inStable⟩
    · exact .inl (Nat.le_zero.mp (zero ▸ short))
    rw [resumes.stable] at inStable
    -- the committed prefix and the stored log are equally long
    have length := inStable.length_le
    rw [List.length_take_of_le reaches] at length
    have same : (s.node i).persister.log.length = (s.node i).commitIndex := by omega
    refine .inr ⟨t, part, committed, ?_, same ▸ reaches, ?_, ?_⟩
    · rw [Raft.restart_currentTerm, term]
      exact le
    · rw [same, Raft.restart_log]
      exact inStable
    · rw [same, resumes.stableAfter]
      exact inStable
  · -- somebody else has the stored log committed
    rcases committing.nodes j with zero | ⟨t, part, committed, le, reaches, inLog, -⟩
    · exact .inl (Nat.le_zero.mp (zero ▸ short))
    have same : part.take (s.node i).persister.log.length = (s.node i).persister.log := by
      have inPart := List.prefix_of_prefix_length_le held inLog
        (by rwa [List.length_take_of_le reaches])
      exact (List.prefix_iff_eq_take.mp (inPart.trans (List.take_prefix _ _))).symm
    refine .inr ⟨t, part, committed, ?_, short.trans reaches, ?_, ?_⟩
    · rw [Raft.restart_currentTerm]
      exact le.trans behind
    · rw [same, Raft.restart_log]
    · rw [same, resumes.stableAfter]

/-- A follower that moves its commit index holds what the leader has committed. -/
theorem covers_of_append (safety : Safety m view s) (committing : Committing m view s)
    {src dst : Int} {req : AppendEntriesRequest} {log : List LogEntry} {modified : Bool}
    {r : Raft} (inNet : .appendEntries src dst req ∈ s.net)
    (accepts : (s.node dst).Accepts req log modified) (sameLog : r.log = log)
    (sameTerm : r.currentTerm = req.term)
    (reliable : r.log.take (req.prevLogIndex + req.entries.length) <+: view.stable r) :
    Covers m view s r (min req.leaderCommit (req.prevLogIndex + req.entries.length)) := by
  obtain ⟨led, -⟩ := safety.matching.requests inNet
  have merged := safety.flat.merged safety.shaped safety.matching inNet accepts
  rcases committing.requests inNet with zero | ⟨t, part, committed, le, reaches⟩
  · exact .inl (by rw [zero, Nat.zero_min])
  have inBook := safety.committed_in_book committed le led
  have held : part.take (min req.leaderCommit (req.prevLogIndex + req.entries.length)) <+:
      r.log := by
    rw [sameLog, merged]
    refine List.IsPrefix.trans ?_ (part_prefix_merge _ _)
    refine List.prefix_take_iff.mpr ⟨(List.take_prefix _ _).trans inBook, ?_⟩
    rw [List.length_take]
    omega
  refine .inr ⟨t, part, committed, sameTerm ▸ le, by omega, held, ?_⟩
  refine (List.prefix_take_iff.mpr ⟨held, ?_⟩).trans reliable
  exact (List.length_take_le _ _).trans (Nat.min_le_right _ _)

end Committing

/-- What a step does to the commit index of the acting node. -/
inductive CommitTurn (view : View) (s : Cluster) (a : Action) (o : Outcome) : Prop where
  | keeps (same : o.raft.commitIndex = (s.node o.node).commitIndex)
  | counts {entry : LogEntry} (commits : o.raft.CommitsByMajority entry)
  | follows {src : Int} {req : AppendEntriesRequest} {log : List LogEntry} {modified : Bool}
      (inNet : .appendEntries src o.node req ∈ s.net)
      (accepts : (s.node o.node).Accepts req log modified) (sameLog : o.raft.log = log)
      (sameTerm : o.raft.currentTerm = req.term)
      (reliable : o.raft.log.take (req.prevLogIndex + req.entries.length) <+:
        view.stable o.raft)
      (commitIndex : o.raft.commitIndex = max (s.node o.node).commitIndex
        (min req.leaderCommit (req.prevLogIndex + req.entries.length)))
  | restarts (action : a = .restart o.node) (raft : o.raft = (s.node o.node).restart)

theorem commitTurn_of_effect (safety : Safety m view s) (admissible : Admissible m view s a)
    (effect : Effect m s a o) : CommitTurn view s a o := by
  cases effect with
  | yield yields => exact .keeps yields.commitIndex
  | refuseVote _ yields => exact .keeps yields.commitIndex
  | refuseAppend _ yields => exact .keeps yields.commitIndex
  | answerInstall _ yields => exact .keeps yields.commitIndex
  | appendUnsaved _ yields => exact .keeps yields.commitIndex
  | @grantVote src dst req disk r inNet grants =>
      refine .keeps ?_
      rw [grants.result]
      exact (Raft.Yields.adoptTerm (s.node dst) req.term).commitIndex
  | append inNet yields term accepts stored result =>
      have reliable := admissible.appends _ _ _ _ _ _ rfl result rfl
      refine .follows inNet accepts ?_ ?_ reliable ?_
      · rw [stored]
      · rw [stored]
        exact term
      · rw [stored, ← yields.commitIndex]
  | replicate _ _ _ stored =>
      simp only [stored]
      rcases Raft.updateCommitIndex_commits _ with same | ⟨entry, commits⟩
      · exact .keeps same
      · exact .counts commits
  | recordMatch _ _ _ _ updated =>
      simp only [updated]
      rcases Raft.updateCommitIndex_commits _ with same | ⟨entry, commits⟩
      · exact .keeps same
      · exact .counts commits
  | recordInstall inNet => exact absurd inNet safety.flat.replies
  | install inNet => exact absurd inNet safety.flat.requests
  | compact threshold =>
      rw [safety.static.threshold] at threshold
      exact absurd threshold (lt_irrefl _)
  | restart => exact .restarts rfl rfl
  | _ => exact .keeps rfl

/-- A commit event records an index that was reached by counting. -/
theorem commits_of_event (flat : Flat s) (effect : Effect m s a o) {i : Int}
    {term n : Nat} {log : List LogEntry} (recorded : .committed i term n log ∈ o.events) :
    term = o.raft.currentTerm ∧ n = o.raft.commitIndex ∧ log = o.raft.log ∧
      ∃ entry, o.raft.CommitsByMajority entry := by
  have counted : ∀ {j : Int} {r r' : Raft}, r'.commitIndex = r.commitIndex →
      .committed i term n log ∈ commitEvent j (s.folded j) r r'.updateCommitIndex →
      term = r'.updateCommitIndex.currentTerm ∧ n = r'.updateCommitIndex.commitIndex ∧
        log = r'.updateCommitIndex.log ∧
        ∃ entry, r'.updateCommitIndex.CommitsByMajority entry := by
    intro j r r' same member
    obtain ⟨moved, event⟩ := mem_commitEvent.mp member
    cases event
    refine ⟨rfl, rfl, by rw [flat.folded, List.nil_append], ?_⟩
    rcases r'.updateCommitIndex_commits with kept | commits
    · omega
    · exact commits
  cases effect with
  | replicate _ _ _ stored =>
      rcases List.mem_append.mp recorded with commit | other
      · simp only [stored] at commit ⊢
        exact counted rfl commit
      · simp at other
  | recordMatch _ _ _ _ updated =>
      simp only [updated] at recorded ⊢
      exact counted rfl recorded
  | recordInstall inNet => exact absurd inNet flat.replies
  | _ => simp at recorded

namespace Committing

theorem nodes_of_effect (safety : Safety m view s) (committing : Committing m view s)
    (admissible : Admissible m view s a) (effect : Effect m s a o) (applies : Applies s o s')
    (evolution : (view.register s).Evolves (view.register s')) (safety' : Safety m view s')
    (replicating' : Replicating view s') : Covers m view s' o.raft o.raft.commitIndex := by
  have restarted : a = .restart o.node ∧ o.raft = (s.node o.node).restart →
      Covers m view s' o.raft o.raft.commitIndex := by
    rintro ⟨action, raft⟩
    rw [raft]
    exact (committing.covers_of_restart safety (admissible.restarts _ action)).evolve evolution
  rcases (committing.nodes o.node).of_effect safety admissible effect with kept | restart
  swap
  · exact restarted restart
  cases commitTurn_of_effect safety admissible effect with
  | keeps same =>
      rw [same]
      exact kept.evolve evolution
  | follows inNet accepts sameLog sameTerm reliable commitIndex =>
      rw [commitIndex]
      refine Covers.evolve evolution ?_
      rcases max_choice (s.node o.node).commitIndex _ with old | new
      · rw [old]
        exact kept
      · rw [new]
        exact committing.covers_of_append safety inNet accepts sameLog sameTerm reliable
  | counts commits =>
      rw [← applies.node_self] at commits ⊢
      obtain ⟨bound, committed⟩ := committed_of_majority safety' replicating' commits
      have reliable := (replicating'.own _ commits.leads _ committed.1).2
      refine .inr ⟨_, _, committed, le_rfl, ?_, ?_, ?_⟩
      · rw [List.length_take_of_le bound]
      · exact (List.take_prefix _ _).trans (List.take_prefix _ _)
      · rw [reliable]
        exact (List.take_prefix _ _).trans (List.take_prefix _ _)
  | restarts action raft => exact restarted ⟨action, raft⟩

theorem tasks_of_effect (committing : Committing m view s) (effect : Effect m s a o)
    {i peer : Int} {term n : Nat} (added : .sendAppendEntries i peer term n ∈ o.tasks) :
    Sanctioned m view s term n ∨ term = o.raft.currentTerm ∧ n = o.raft.commitIndex := by
  have fanned : ∀ {j : Int} {r : Raft}, .sendAppendEntries i peer term n ∈ fanOut j r →
      term = r.currentTerm ∧ n = r.commitIndex := by
    intro j r member
    obtain ⟨p, -, same⟩ := List.mem_map.mp member
    cases same
    exact ⟨rfl, rfl⟩
  cases effect with
  | heartbeat => exact .inr (fanned added)
  | replicate =>
      rcases List.mem_cons.mp added with other | member
      · cases other
      · exact .inr (fanned member)
  | retry inNet =>
      cases List.mem_singleton.mp added
      exact .inl (committing.replies inNet)
  | _ => simp at added

theorem requests_of_effect (committing : Committing m view s) (effect : Effect m s a o)
    {src dst : Int} {req : AppendEntriesRequest}
    (sent : .appendEntries src dst req ∈ o.packets) :
    Sanctioned m view s req.term req.leaderCommit := by
  cases effect with
  | duplicate inNet =>
      cases List.mem_singleton.mp sent
      exact committing.requests inNet
  | sendAppendEntries pending outgoing =>
      cases List.mem_singleton.mp sent
      obtain ⟨-, -, nextIdx, -, rfl⟩ := Raft.sendAppendEntries_request outgoing
      exact committing.tasks pending
  | install _ _ _ replies =>
      obtain ⟨_, impossible⟩ := replies _ sent
      cases impossible
  | _ => simp at sent

theorem replies_of_effect (committing : Committing m view s) (effect : Effect m s a o)
    {src dst : Int} {req : AppendEntriesRequest} {resp : AppendEntriesResponse}
    (sent : .appendEntriesReply src dst req resp ∈ o.packets) :
    Sanctioned m view s req.term req.leaderCommit := by
  cases effect with
  | duplicate inNet =>
      cases List.mem_singleton.mp sent
      exact committing.replies inNet
  | refuseAppend inNet =>
      cases List.mem_singleton.mp sent
      exact committing.requests inNet
  | append inNet =>
      cases List.mem_singleton.mp sent
      exact committing.requests inNet
  | install _ _ _ replies =>
      obtain ⟨_, impossible⟩ := replies _ sent
      cases impossible
  | _ => simp at sent

theorem of_effect (safety : Safety m view s) (committing : Committing m view s)
    (admissible : Admissible m view s a) (effect : Effect m s a o) (applies : Applies s o s')
    (evolution : (view.register s).Evolves (view.register s')) (safety' : Safety m view s')
    (replicating' : Replicating view s') : Committing m view s' := by
  have acting := committing.nodes_of_effect safety admissible effect applies evolution safety'
    replicating'
  refine ⟨fun pending => ?_, fun inNet => ?_, fun inNet => ?_, fun i => ?_, fun member => ?_⟩
  · rcases applies.mem_tasks pending with new | old
    · rcases committing.tasks_of_effect effect new with known | ⟨rfl, rfl⟩
      · exact known.evolve evolution
      · exact acting.sanctioned
    · exact (committing.tasks old).evolve evolution
  · exact ((applies.mem_net inNet).elim (committing.requests_of_effect effect)
      committing.requests).evolve evolution
  · exact ((applies.mem_net inNet).elim (committing.replies_of_effect effect)
      committing.replies).evolve evolution
  · by_cases acts : i = o.node
    · rw [acts, applies.node_self]
      exact acting
    · rw [applies.node_of_ne acts]
      exact (committing.nodes i).evolve evolution
  · rcases applies.mem_history.mp member with new | old
    · obtain ⟨rfl, rfl, rfl, entry, commits⟩ := commits_of_event safety.flat effect new
      rw [← applies.node_self] at commits ⊢
      exact committed_of_majority safety' replicating' commits
    · exact ⟨(committing.events old).1, evolution.committed (committing.events old).2⟩

end Committing

/-! ## All invariants -/

/-- Everything that admissible steps preserve. -/
structure Agreeing (m : Membership) (view : View) (s : Cluster) : Prop where
  safety : Safety m view s
  replicating : Replicating view s
  committing : Committing m view s

theorem Agreeing.initial (fits : m.Fits) (view : View) : Agreeing m view (init m 0) :=
  ⟨.initial fits view, .initial m view, .initial m view⟩

theorem Agreeing.step (agreeing : Agreeing m view s) (admissible : Admissible m view s a)
    (stepped : s.step m a = some s') :
    Agreeing m view s' ∧ (view.register s).Evolves (view.register s') := by
  obtain ⟨safety, replicating, committing⟩ := agreeing
  obtain ⟨safety', evolution⟩ := safety.step admissible stepped
  obtain ⟨o, effect, applies⟩ := effect_of_step stepped
  have grows := safety.growsBy admissible effect
  rw [← ledger_of_applies applies] at grows
  have replicating' :=
    replicating.step safety admissible stepped effect applies grows evolution
  exact ⟨⟨safety', replicating', committing.of_effect safety admissible effect applies
    evolution safety' replicating'⟩, evolution⟩

/-- Two nodes agree on what both take to be committed. -/
theorem Agreeing.agree (agreeing : Agreeing m view s) {i j : Int} {n : Nat}
    (reached : n < (s.node i).commitIndex) (reached' : n < (s.node j).commitIndex) :
    ∃ entry, (s.node i).log[n]? = some entry ∧ (s.node j).log[n]? = some entry := by
  -- a position below the commit index carries the entry of the committed part
  have found : ∀ {r : Raft} {part : List LogEntry}, n < r.commitIndex →
      part.take r.commitIndex <+: r.log → n < part.length → r.log[n]? = part[n]? := by
    intro r part below inLog within
    obtain ⟨rest, split⟩ := inLog
    rw [← split, List.getElem?_append_left (by rw [List.length_take]; omega),
      List.getElem?_take_of_lt below]
  rcases agreeing.committing.nodes i with zero | ⟨t, part, committed, -, reaches, inLog, -⟩
  · omega
  rcases agreeing.committing.nodes j with
    zero | ⟨t', part', committed', -, reaches', inLog', -⟩
  · omega
  have within : n < part.length := by omega
  have within' : n < part'.length := by omega
  refine ⟨part[n], ?_, ?_⟩
  · rw [found reached inLog within, List.getElem?_eq_getElem within]
  · rw [found reached' inLog' within', ← List.getElem?_eq_getElem within]
    rcases agreeing.safety.safe.committed_comparable committed committed' with left | right
    · obtain ⟨rest, rfl⟩ := left
      rw [List.getElem?_append_left within]
    · obtain ⟨rest, rfl⟩ := right
      rw [List.getElem?_append_left within']

end Cluster

end DistribKV
