import DistribKV.Cluster.CompactedSafety

/-!
# Agreement with compacted logs

Leaders count answers to entries and to snapshots alike, and commit indices spread with
requests and with snapshots.  In tidy runs whatever any node has ever taken to be
committed, folded or retained, is the beginning of one log.
-/

namespace DistribKV

open Consensus

namespace Cluster

variable {m : Membership} {threshold : Int} {s s' : Cluster} {a : Action} {o : Outcome}
variable {ack : Int → Nat → Nat}

/-! ## What leaders have counted -/

/-- An index that a leader commits by counting replicas is committed. -/
theorem Founded.committed_of_counted (founded : Founded m threshold s ack)
    (counted : Counted s ack) {i : Int} {entry : LogEntry}
    (commits : (s.node i).CommitsByMajority entry) :
    (s.node i).commitIndex ≤ (s.whole i).length ∧
      (s.wholeRegister ack).Committed LogEntry.term (population m) (s.node i).currentTerm
        ((s.whole i).take (s.node i).commitIndex) := by
  obtain ⟨static, shaped, matching⟩ := founded.matched
  obtain ⟨leads, positive, found, enough, term⟩ := commits
  obtain ⟨leader, book⟩ := matching.leading i leads
  have above : (s.node i).logBase < (s.node i).commitIndex := by
    by_contra below
    rw [entryAt_of_neg (by omega)] at found
    cases found
  obtain ⟨n, position⟩ : ∃ n, (s.node i).commitIndex = n + 1 :=
    ⟨(s.node i).commitIndex - 1, by omega⟩
  have inWhole : (s.whole i)[n]? = some entry := by
    rw [show n = (s.node i).logBase + ((s.node i).commitIndex - (s.node i).logBase - 1) by omega,
      whole, getElem?_whole (shaped.based i)]
    exact Shaped.getElem?_of_entryAt above found
  obtain ⟨bound, rfl⟩ := List.getElem?_eq_some_iff.mp inWhole
  rw [position] at enough ⊢
  have length : ((s.whole i).take (n + 1)).length = n + 1 := List.length_take_of_le bound
  have own : (s.wholeRegister ack).OwnPart LogEntry.term (s.node i).currentTerm
      ((s.whole i).take (n + 1)) := by
    refine ⟨Option.isSome_iff_exists.mpr ⟨_, leader⟩, ?_, (s.whole i).take n, _,
      (List.take_append_getElem bound).symm, term⟩
    simp only [wholeRegister, book]
    exact List.take_prefix _ _
  refine ⟨bound, own, s.holders i (n + 1),
    static.majority_holders (static.leader_mem leads) enough, fun q member => ?_⟩
  rw [length]
  rcases Finset.mem_insert.mp member with rfl | peer
  · exact Nat.le_trans bound (counted.own q leads)
  · obtain ⟨p, held, rfl⟩ := List.mem_map.mp (List.mem_toFinset.mp peer)
    obtain ⟨inPeers, reached⟩ := List.mem_filter.mp held
    exact (of_decide_eq_true reached).trans (counted.matched i leads p inPeers)

/-- An answer to a snapshot was there before the step or comes from the acting node. -/
theorem installReply_of_effect (effect : Effect m s a o) {src dst : Int}
    {req : InstallSnapshotRequest} {resp : InstallSnapshotResponse}
    (sent : .installSnapshotReply src dst req resp ∈ o.packets) :
    .installSnapshotReply src dst req resp ∈ s.net ∨ dst = o.node := by
  cases effect with
  | duplicate held =>
      cases List.mem_singleton.mp sent
      exact .inl held
  | answerInstall =>
      cases List.mem_singleton.mp sent
      exact .inr rfl
  | install _ _ _ replies =>
      obtain ⟨_, same⟩ := replies _ sent
      cases same
      exact .inr rfl
  | _ => simp at sent

namespace Proceeds

variable (proceeds : Proceeds m threshold ack s a o s')
include proceeds

theorem appended' (counted : Counted s ack) {src dst : Int} {req : AppendEntriesRequest}
    {resp : AppendEntriesResponse} (inNet : .appendEntriesReply src dst req resp ∈ s'.net)
    (success : resp.success = true) :
    req.prevLogIndex + req.entries.length ≤ ackAfter s' ack o dst req.term := by
  have old : .appendEntriesReply src dst req resp ∈ s.net →
      req.prevLogIndex + req.entries.length ≤ ackAfter s' ack o dst req.term :=
    fun held => (counted.appended held success).trans (proceeds.ack_le _ _)
  rcases proceeds.applies.mem_net inNet with new | held
  case inr => exact old held
  rcases appendReply_of_effect proceeds.effect new with held | ⟨sent, accepted⟩
  · exact old held
  obtain ⟨-, shaped, matching⟩ := proceeds.founded.matched
  obtain ⟨rfl, term, folded, modified, accepts⟩ := accepted success
  obtain ⟨led, slice⟩ := matching.requests sent
  have inBook := proceeds.advance.extension.book _ led
  rw [← term] at slice inBook ⊢
  rw [← List.length_take_of_le slice.length_le]
  refine length_le_ack ?_ ((List.take_prefix _ _).trans inBook)
  rw [proceeds.applies.whole_self, folded, matching.accepted shaped sent accepts, ← term]
  exact part_prefix_merge _ _

theorem installed' (counted : Counted s ack) {src dst : Int} {req : InstallSnapshotRequest}
    {resp : InstallSnapshotResponse} (inNet : .installSnapshotReply src dst req resp ∈ s'.net)
    (current : resp.term ≤ req.term) (leads : s'.Leads src req.term) :
    req.lastIncludedIndex ≤ ackAfter s' ack o dst req.term := by
  have matching := proceeds.founded.matched.matching
  have old : .installSnapshotReply src dst req resp ∈ s.net →
      req.lastIncludedIndex ≤ ackAfter s' ack o dst req.term := by
    intro held
    have before := proceeds.advance.leads_before (proceeds.founded.tracked.installed held).1 leads
    exact (counted.installed held current before).trans (proceeds.ack_le _ _)
  rcases installReply_of_step proceeds.stepped inNet with held | ⟨covered, disk, -, sent, called⟩
  · exact old held
  rcases proceeds.applies.mem_net inNet with new | held
  case inr => exact old held
  rcases installReply_of_effect proceeds.effect new with held | rfl
  · exact old held
  -- the answer is of the term of the leader, so both have the entries it stands for
  rcases Raft.installSnapshot_answer called with ⟨answer, higher⟩ | ⟨term, -⟩
  · omega
  rcases (proceeds.tracked'.installed inNet).2 current leads with zero | ⟨-, shares⟩
  · exact zero ▸ Nat.zero_le _
  obtain ⟨common, length, inLeader, inPeer⟩ := shares (term.trans leads.2.symm)
  have book := (proceeds.matched'.matching.leading src leads.1).2
  rw [proceeds.applies.node_self] at term
  rw [← length, ← term]
  refine length_le_ack inPeer ?_
  rwa [term, ← leads.2, book]

theorem counted' (counted : Counted s ack) : Counted s' (ackAfter s' ack o) where
  appended := proceeds.appended' counted
  installed := proceeds.installed' counted
  matched i leads p member := by
    rcases proceeds.advance.leads_or_promoted ⟨leads, rfl⟩ with before | ⟨-, zero⟩
    case inr => exact zero p member ▸ Nat.zero_le _
    refine le_trans ?_ (proceeds.ack_le _ _)
    rw [← before.2]
    cases matchSource_of_step proceeds.stepped member with
    | reset zero => exact zero ▸ Nat.zero_le _
    | kept known id index =>
        rw [index, ← id]
        exact counted.matched i before.1 _ known
    | appended inNet success leads index =>
        rw [index, leads.2]
        exact counted.appended inNet success
    | installed inNet current leads index =>
        rw [index, leads.2]
        exact counted.installed inNet current leads
  own i leads := by
    have book := (proceeds.matched'.matching.leading i leads).2
    by_cases acts : i = o.node
    · subst acts
      rw [proceeds.applies.node_self] at book ⊢
      exact length_le_ack (List.prefix_refl _) (book ▸ List.prefix_refl _)
    · rw [proceeds.applies.node_of_ne acts] at leads ⊢
      rw [proceeds.applies.whole_of_ne acts]
      exact (counted.own i leads).trans (proceeds.ack_le _ _)

/-! ## What is settled -/

/-- Unless it installs a snapshot, the acting node keeps what it takes to be committed. -/
theorem covers_kept (low : o.raft.logBase ≤ (s.node o.node).commitIndex) :
    Covered m (s.wholeRegister ack)
      { o.raft with commitIndex := (s.node o.node).commitIndex } o.folded := by
  have founded := proceeds.founded
  have matching := founded.matched.matching
  obtain ⟨reached, settled⟩ := proceeds.settling.nodes o.node
  have later := proceeds.advance.term_le o.node
  rw [proceeds.applies.node_self] at later
  -- the committed entries are settled up to the term of the node, and still in its log
  have held : (s.wholeRegister ack).SettledBy LogEntry.term (population m)
        (s.node o.node).currentTerm ((s.whole o.node).take (s.node o.node).commitIndex) →
      (s.whole o.node).take (s.node o.node).commitIndex <+: o.folded ++ o.raft.log →
      Covered m (s.wholeRegister ack)
        { o.raft with commitIndex := (s.node o.node).commitIndex } o.folded := by
    intro settled held
    have length : ((s.whole o.node).take (s.node o.node).commitIndex).length = _ :=
      List.length_take_of_le reached
    refine ⟨length ▸ held.length_le, .inl ?_⟩
    rw [List.prefix_iff_eq_take, length] at held
    simp only [← held]
    exact settled.mono later
  -- or the node is ahead of its term, and has committed what its snapshot stands for
  have ahead : (s.node o.node).commitIndex = (s.node o.node).logBase →
      (s.wholeRegister ack).Settled LogEntry.term (population m) (s.folded o.node) →
      o.folded = s.folded o.node → o.raft.logBase = (s.node o.node).logBase →
      o.raft.state ≠ .leader →
      Covered m (s.wholeRegister ack)
        { o.raft with commitIndex := (s.node o.node).commitIndex } o.folded := by
    intro commitIndex settled folded base notLeader
    refine ⟨?_, .inr ⟨notLeader, commitIndex.trans base.symm, folded ▸ settled⟩⟩
    simp only [commitIndex, folded, List.length_append, founded.matched.shaped.based]
    exact Nat.le_add_right _ _
  cases proceeds.turn with
  | keeps same based _ _ role =>
      rcases settled with settled | ⟨notLeader, commitIndex, settled⟩
      · exact held settled (same ▸ List.take_prefix _ _)
      · rcases based with ⟨folded, base⟩ | above
        · exact ahead commitIndex settled folded base fun leads => notLeader (role leads).1
        · omega
  | elects candidate raft folded action recorded =>
      obtain ⟨_, rfl⟩ := action
      have settled := founded.settled_of_majority proceeds.settling candidate
        (proceeds.vacant recorded) (proceeds.tidy.1.2 candidate)
      refine held settled ?_
      rw [folded, raft]
      exact List.take_prefix _ _
  | writes leads _ log folded sameTerm =>
      refine held (settled.resolve_right fun ahead => ahead.1 leads) ?_
      rw [folded, log, ← List.append_assoc]
      exact (List.take_prefix _ _).trans (List.prefix_append _ _)
  | merges inNet current sameTerm folded base merged role =>
      rcases settled with settled | ⟨notLeader, commitIndex, settled⟩
      · have led := (matching.requests inNet).1
        refine held settled ?_
        rw [merged]
        exact prefix_merge (List.take_prefix _ _) (settled.inBook founded.safe current led)
          (List.take_prefix _ _)
      · exact ahead commitIndex settled folded base fun leads => notLeader (role leads).1
  | installs _ _ fresh _ base => omega

/-- The acting node covers its commit index after the step. -/
theorem covers (counted : Counted s ack) :
    Covered m (s'.wholeRegister (ackAfter s' ack o)) o.raft o.folded := by
  have founded := proceeds.founded
  obtain ⟨-, shaped, matching⟩ := founded.matched
  have based := proceeds.matched'.shaped.committed o.node
  rw [proceeds.applies.node_self] at based
  cases proceeds.move with
  | keeps same =>
      have kept := proceeds.covers_kept (same ▸ based)
      rw [← same] at kept
      exact kept.evolve proceeds.evolution
  | counts commits =>
      rw [← proceeds.applies.node_self] at commits
      obtain ⟨reached, committed⟩ :=
        proceeds.founded'.committed_of_counted (proceeds.counted' counted) commits
      rw [whole, proceeds.applies.node_self, proceeds.applies.folded_self] at reached committed
      exact ⟨reached, .inl (.inr ⟨_, _, committed, le_rfl, List.prefix_refl _⟩)⟩
  | @follows src req log modified inNet accepts sameLog folded base sameTerm commitIndex =>
      rcases max_choice (s.node o.node).commitIndex
        (min req.leaderCommit (req.prevLogIndex + req.entries.length)) with old | new
      · rw [old] at commitIndex
        have kept := proceeds.covers_kept (commitIndex ▸ based)
        rw [← commitIndex] at kept
        exact kept.evolve proceeds.evolution
      · rw [new] at commitIndex
        obtain ⟨-, slice⟩ := matching.requests inNet
        have vouched := proceeds.settling.requests inNet
        have held : (s.ledger.book req.term).take o.raft.commitIndex <+:
            o.folded ++ o.raft.log := by
          rw [sameLog, folded, matching.accepted shaped inNet accepts]
          refine List.IsPrefix.trans ?_ (part_prefix_merge _ _)
          exact List.take_prefix_take_left (by omega)
        have length : ((s.ledger.book req.term).take o.raft.commitIndex).length =
            o.raft.commitIndex :=
          List.length_take_of_le (by have := slice.length_le; omega)
        refine Covered.evolve ⟨length ▸ held.length_le, .inl ?_⟩ proceeds.evolution
        rw [List.prefix_iff_eq_take, length] at held
        rw [← held, sameTerm]
        exact vouched.settled.of_isPrefix (List.take_prefix_take_left (by omega))
  | installs inNet folded base sameTerm notLeader commitIndex =>
      obtain ⟨-, length, -⟩ := shaped.snapshots inNet
      refine Covered.evolve ⟨?_, .inr ⟨notLeader, commitIndex.trans base.symm, ?_⟩⟩
        proceeds.evolution
      · rw [commitIndex, folded, List.length_append, length]
        exact Nat.le_add_right _ _
      · exact folded ▸ proceeds.settling.snapshots inNet

/-- Who is outvoted stays outvoted while it stands. -/
theorem outvoted {i : Int} (outvoted : s.Outvoted m i)
    (sameTerm : (s'.node i).currentTerm = (s.node i).currentTerm) : s'.Outvoted m i := by
  obtain ⟨quorum, majority, past⟩ := outvoted
  refine ⟨quorum, majority, fun q member => ?_⟩
  obtain ⟨passed, unpromised⟩ := past q member
  rw [sameTerm]
  refine ⟨passed.trans_le (proceeds.advance.term_le q), fun req granted => ?_⟩
  rcases proceeds.applies.mem_history.mp granted with new | old
  · obtain ⟨-, -, current, -⟩ := proceeds.ballot_of_effect new
    exact absurd passed (Nat.not_lt.mpr current)
  · exact unpromised req old

/-- A node that begins to stand is not ahead of its new term, or outvoted from the start. -/
theorem settled_or_outvoted (stands : o.raft.currentTerm = (s.node o.node).currentTerm + 1)
    (covers : Covered m (s'.wholeRegister (ackAfter s' ack o)) o.raft o.folded) :
    (s'.wholeRegister (ackAfter s' ack o)).SettledBy LogEntry.term (population m)
      o.raft.currentTerm ((o.folded ++ o.raft.log).take o.raft.commitIndex) ∨
      s'.Outvoted m o.node := by
  have based := proceeds.matched'.shaped.based o.node
  rw [proceeds.applies.node_self, proceeds.applies.folded_self] at based
  obtain ⟨bound, empty | ⟨t, part, committed, -, held⟩⟩ := covers.take_settled based
  · exact .inl (.inl empty)
  rcases Nat.lt_or_ge o.raft.currentTerm t with ahead | le
  case inr => exact .inl (.inr ⟨t, part, committed, le, held⟩)
  obtain ⟨quorum, majority, promised⟩ := proceeds.safe'.elected t committed.1.1
  refine .inr ⟨quorum, majority, fun q member => ?_⟩
  rw [proceeds.applies.node_self]
  refine ⟨ahead.trans_le (promised q member), fun req granted isCandidate => ?_⟩
  -- a vote in the new term would belong to a candidacy before the step
  rcases proceeds.applies.mem_history.mp granted with new | old
  · obtain ⟨rfl, term, -⟩ := proceeds.ballot_of_effect new
    have later := promised o.node member
    simp only [wholeRegister, proceeds.applies.node_self] at later
    omega
  · obtain ⟨term, stood, -⟩ := proceeds.founded.standing.granted old
    rw [isCandidate, ← term] at stood
    have := proceeds.founded.voting.candidacy_le stood
    omega

theorem candidates' (counted : Counted s ack) {i : Int}
    (candidate : (s'.node i).state = .candidate)
    (vacant : s'.ledger.leader (s'.node i).currentTerm = none) :
    (s'.wholeRegister (ackAfter s' ack o)).SettledBy LogEntry.term (population m)
      (s'.node i).currentTerm ((s'.whole i).take (s'.node i).commitIndex) ∨
      s'.Outvoted m i := by
  have wasVacant := Standing.vacant_before proceeds.advance.extension vacant
  have kept : (s.node i).state = .candidate →
      (s'.node i).currentTerm = (s.node i).currentTerm → s'.whole i = s.whole i →
      (s'.node i).commitIndex = (s.node i).commitIndex →
      (s'.wholeRegister (ackAfter s' ack o)).SettledBy LogEntry.term (population m)
        (s'.node i).currentTerm ((s'.whole i).take (s'.node i).commitIndex) ∨
        s'.Outvoted m i := by
    intro wasCandidate sameTerm same commitIndex
    rw [sameTerm] at wasVacant
    rw [same, commitIndex]
    rcases proceeds.settling.candidates i wasCandidate wasVacant with settled | outvoted
    · exact .inl (sameTerm ▸ settled.evolve proceeds.evolution)
    · exact .inr (proceeds.outvoted outvoted sameTerm)
  by_cases acts : i = o.node
  case neg =>
    have node := proceeds.applies.node_of_ne acts
    exact kept (node ▸ candidate) (by rw [node]) (proceeds.applies.whole_of_ne acts) (by rw [node])
  subst acts
  have node := proceeds.applies.node_self
  rw [node] at candidate wasVacant
  cases turn_of_effect proceeds.effect with
  | keeps keeps =>
      obtain ⟨sameTerm, -⟩ := keeps.of_ne_follower (candidate.trans_ne (by decide))
      obtain ⟨wasCandidate, -, same, commitIndex⟩ := whole_of_candidate proceeds.turn
        proceeds.move proceeds.founded.matched.matching proceeds.effect sameTerm.le candidate rfl
        wasVacant
      rw [← proceeds.applies.whole_self] at same
      exact kept wasCandidate (by rw [node, sameTerm]) same (by rw [node, commitIndex])
  | stands _ _ raft =>
      have stands : o.raft.currentTerm = (s.node o.node).currentTerm + 1 := by
        rcases raft with raft | raft <;> simp [raft, Raft.enterCandidate, Raft.saved]
      rw [proceeds.applies.whole_self, node]
      exact proceeds.settled_or_outvoted stands (proceeds.covers counted)
  | leads _ _ raft =>
      rw [raft] at candidate
      cases candidate
  | restarts action => exact absurd action (proceeds.running _)

/-- A leader vouches for what it has committed. -/
theorem vouches (counted : Counted s ack) (leads : o.raft.state = .leader) :
    Vouched m (s'.wholeRegister (ackAfter s' ack o)) o.raft.currentTerm o.raft.commitIndex := by
  obtain ⟨reached, settled⟩ := proceeds.covers counted
  have leading := proceeds.matched'.matching.leading o.node
  rw [proceeds.applies.node_self, proceeds.applies.whole_self] at leading
  obtain ⟨leader, book⟩ := leading leads
  refine ⟨Option.isSome_iff_exists.mpr ⟨_, leader⟩, ?_, ?_⟩
  · simp only [wholeRegister, book]
    exact reached
  · have own := settled.resolve_right fun ahead => ahead.1 leads
    simpa only [wholeRegister, book] using own

theorem tasks_of_effect {i peer : Int} {term n : Nat}
    (added : .sendAppendEntries i peer term n ∈ o.tasks) :
    Vouched m (s.wholeRegister ack) term n ∨
      o.raft.state = .leader ∧ term = o.raft.currentTerm ∧ n = o.raft.commitIndex := by
  obtain ⟨-, settling, -, -, effect, -⟩ := proceeds
  have fanned : ∀ {j : Int} {r : Raft}, .sendAppendEntries i peer term n ∈ fanOut j r →
      term = r.currentTerm ∧ n = r.commitIndex := by
    intro j r member
    obtain ⟨p, -, same⟩ := List.mem_map.mp member
    cases same
    exact ⟨rfl, rfl⟩
  cases effect with
  | heartbeat _ leads => exact .inr ⟨leads, fanned added⟩
  | replicate _ leads _ stored =>
      rcases List.mem_cons.mp added with other | member
      · cases other
      · exact .inr ⟨by simp [stored, Raft.saved, leads], fanned member⟩
  | retry inNet =>
      cases List.mem_singleton.mp added
      exact .inl (settling.replies inNet)
  | _ => simp at added

theorem requests_of_effect {src dst : Int} {req : AppendEntriesRequest}
    (sent : .appendEntries src dst req ∈ o.packets) :
    Vouched m (s.wholeRegister ack) req.term req.leaderCommit := by
  obtain ⟨-, settling, -, -, effect, -⟩ := proceeds
  cases effect with
  | duplicate inNet =>
      cases List.mem_singleton.mp sent
      exact settling.requests inNet
  | sendAppendEntries pending outgoing =>
      cases List.mem_singleton.mp sent
      obtain ⟨-, -, nextIdx, -, rfl⟩ := Raft.sendAppendEntries_request outgoing
      exact settling.tasks pending
  | install _ _ _ replies =>
      obtain ⟨_, impossible⟩ := replies _ sent
      cases impossible
  | _ => simp at sent

theorem replies_of_effect {src dst : Int} {req : AppendEntriesRequest}
    {resp : AppendEntriesResponse} (sent : .appendEntriesReply src dst req resp ∈ o.packets) :
    Vouched m (s.wholeRegister ack) req.term req.leaderCommit := by
  rcases appendReply_of_effect proceeds.effect sent with held | ⟨inNet, -⟩
  · exact proceeds.settling.replies held
  · exact proceeds.settling.requests inNet

theorem snapshots_of_effect {src dst : Int} {req : InstallSnapshotRequest}
    {covered : List LogEntry} (sent : .installSnapshot src dst req covered ∈ o.packets) :
    (s.wholeRegister ack).Settled LogEntry.term (population m) covered := by
  obtain ⟨founded, settling, -, -, effect, -⟩ := proceeds
  cases effect with
  | duplicate inNet =>
      cases List.mem_singleton.mp sent
      exact settling.snapshots inNet
  | sendInstallSnapshot =>
      cases List.mem_singleton.mp sent
      have shaped := founded.matched.shaped
      refine ((settling.nodes src).take_settled (shaped.based src)).of_isPrefix ?_
      refine List.prefix_take_iff.mpr ⟨List.prefix_append _ _, ?_⟩
      rw [shaped.based src]
      exact shaped.committed src
  | install _ _ _ replies =>
      obtain ⟨_, impossible⟩ := replies _ sent
      cases impossible
  | _ => simp at sent

theorem settling' (counted : Counted s ack) : Settling m s' (ackAfter s' ack o) where
  nodes i := by
    by_cases acts : i = o.node
    · rw [acts, proceeds.applies.node_self, proceeds.applies.folded_self]
      exact proceeds.covers counted
    · rw [proceeds.applies.node_of_ne acts, proceeds.applies.folded_of_ne acts]
      exact (proceeds.settling.nodes i).evolve proceeds.evolution
  candidates _ := proceeds.candidates' counted
  tasks pending := by
    rcases proceeds.applies.mem_tasks pending with new | old
    · rcases proceeds.tasks_of_effect new with known | ⟨leads, rfl, rfl⟩
      · exact known.evolve proceeds.evolution
      · exact proceeds.vouches counted leads
    · exact (proceeds.settling.tasks old).evolve proceeds.evolution
  requests inNet := ((proceeds.applies.mem_net inNet).elim proceeds.requests_of_effect
    proceeds.settling.requests).evolve proceeds.evolution
  replies inNet := ((proceeds.applies.mem_net inNet).elim proceeds.replies_of_effect
    proceeds.settling.replies).evolve proceeds.evolution
  snapshots inNet := ((proceeds.applies.mem_net inNet).elim proceeds.snapshots_of_effect
    proceeds.settling.snapshots).evolve proceeds.evolution

end Proceeds

/-! ## Runs -/

/-- Everything that tidy steps preserve. -/
structure Compacting (m : Membership) (threshold : Int) (s : Cluster) (ack : Int → Nat → Nat) :
    Prop where
  founded : Founded m threshold s ack
  counted : Counted s ack
  settling : Settling m s ack

namespace Compacting

theorem initial (fits : m.Fits) (threshold : Int) :
    Compacting m threshold (init m threshold) fun _ _ => 0 where
  founded := .initial fits threshold
  counted :=
    { appended := fun inNet => by simp [init] at inNet
      installed := fun inNet => by simp [init] at inNet
      matched := fun _ leads => by
        simp [init, Raft.newRaft, Raft.loadPersistedState, Raft.fresh, Raft.start] at leads
      own := fun _ _ => le_rfl }
  settling :=
    { nodes := fun _ => ⟨Nat.zero_le _, .inl .nil⟩
      candidates := fun _ _ _ => .inl .nil
      tasks := fun pending => by simp [init] at pending
      requests := fun inNet => by simp [init] at inNet
      replies := fun inNet => by simp [init] at inNet
      snapshots := fun inNet => by simp [init] at inNet }

theorem step (compacting : Compacting m threshold s ack) (tidy : s.Tidy m a)
    (stepped : s.step m a = some s') :
    ∃ ack', Compacting m threshold s' ack' ∧
      (s.wholeRegister ack).Evolves (s'.wholeRegister ack') := by
  obtain ⟨founded, counted, settling⟩ := compacting
  obtain ⟨o, effect, applies⟩ := effect_of_step stepped
  have proceeds : Proceeds m threshold ack s a o s' :=
    ⟨founded, settling, tidy, stepped, effect, applies⟩
  exact ⟨_, ⟨proceeds.founded', proceeds.counted' counted, proceeds.settling' counted⟩,
    proceeds.evolution⟩

/-- Along a tidy run promises and acknowledgements evolve. -/
theorem of_run (compacting : Compacting m threshold s ack)
    (run : Run (Cluster.step m) (Tidy m) s s') :
    ∃ ack', Compacting m threshold s' ack' ∧
      (s.wholeRegister ack).Evolves (s'.wholeRegister ack') := by
  apply run.invariant
  · exact ⟨ack, compacting, .refl _⟩
  rintro t u a ⟨ack', held, evolved⟩ tidy stepped
  obtain ⟨ack'', held', evolution⟩ := held.step tidy stepped
  exact ⟨ack'', held', evolved.trans evolution⟩

/-- The committed part of a whole log is settled. -/
theorem take_settled (compacting : Compacting m threshold s ack) (i : Int) :
    (s.wholeRegister ack).Settled LogEntry.term (population m)
      ((s.whole i).take (s.node i).commitIndex) :=
  (compacting.settling.nodes i).take_settled (compacting.founded.matched.shaped.based i)

/-- A settled log that a node has committed is the beginning of its whole log. -/
theorem eq_take (compacting : Compacting m threshold s ack) {log : List LogEntry}
    (settled : (s.wholeRegister ack).Settled LogEntry.term (population m) log) {i : Int}
    (le : log.length ≤ (s.node i).commitIndex) : log = (s.whole i).take log.length :=
  List.prefix_iff_eq_take.mp ((compacting.settling.nodes i).holds
    (compacting.founded.matched.shaped.based i) compacting.founded.safe settled le)

end Compacting

/-- Committed entries are permanent, compacted or not: in every tidy run with any
threshold, the entry that one node takes to be committed at an index, in its log or
folded into its snapshot, is the one that every node takes to be committed there at
every later moment. -/
theorem compacted_agreement (fits : m.Fits) (run : Run (step m) (Tidy m) (init m threshold) s)
    (later : Run (step m) (Tidy m) s s') {i j : Int} {n : Nat}
    (reached : n < (s.node i).commitIndex) (reached' : n < (s'.node j).commitIndex) :
    ∃ entry, (s.whole i)[n]? = some entry ∧ (s'.whole j)[n]? = some entry := by
  obtain ⟨ack, compacting, -⟩ := (Compacting.initial fits threshold).of_run run
  obtain ⟨ack', compacting', evolution⟩ := compacting.of_run later
  have within : n < (s.whole i).length :=
    reached.trans_le (compacting.settling.nodes i).reached
  have within' : n < (s'.whole j).length :=
    reached'.trans_le (compacting'.settling.nodes j).reached
  have inTake : n < ((s.whole i).take (s.node i).commitIndex).length := by
    rw [List.length_take]
    omega
  have inTake' : n < ((s'.whole j).take (s'.node j).commitIndex).length := by
    rw [List.length_take]
    omega
  have same : ((s.whole i).take (s.node i).commitIndex)[n]? =
      ((s'.whole j).take (s'.node j).commitIndex)[n]? := by
    rcases ((compacting.take_settled i).evolve evolution).comparable (compacting'.take_settled j)
      compacting'.founded.safe with shorter | longer
    · rw [List.prefix_iff_getElem?.mp shorter n inTake, List.getElem?_eq_getElem inTake]
    · rw [List.prefix_iff_getElem?.mp longer n inTake', List.getElem?_eq_getElem inTake']
  rw [List.getElem?_take_of_lt reached, List.getElem?_take_of_lt reached'] at same
  exact ⟨_, List.getElem?_eq_getElem within, same ▸ List.getElem?_eq_getElem within⟩

/-- Node `1` leads term 2 and has committed a command with node `2`. -/
def committedByOne : List Action := election ++ transfer.take 10

/-- It folds the command into a snapshot, and node `0` installs that. -/
theorem compacted_agreement_transfer :
    ∃ s s', Run (step threeNodes) (Tidy threeNodes) (init threeNodes 1) s ∧
      Run (step threeNodes) (Tidy threeNodes) s s' ∧
      (s.node 1).log = [⟨1, 2, [2]⟩] ∧ (s'.node 1).log = [] ∧ (s'.node 0).log = [] ∧
      ∃ entry, (s.whole 1)[0]? = some entry ∧ (s'.whole 0)[0]? = some entry := by
  have reached : ∃ s, Run (step threeNodes) (Tidy threeNodes) (init threeNodes 1) s ∧
      0 < (s.node 1).commitIndex ∧ (s.node 1).log = [⟨1, 2, [2]⟩] ∧
      (perform (step threeNodes) (Tidy threeNodes) s (transfer.drop 10)).any (fun s' => decide
        (0 < (s'.node 0).commitIndex ∧ (s'.node 1).log = [] ∧ (s'.node 0).log = [])) = true :=
    exists_run_of_perform committedByOne _ (by decide +kernel)
  obtain ⟨s, run, committed, log, goesOn⟩ := reached
  obtain ⟨s', later, committed', folded, installed⟩ :=
    exists_run_of_perform (transfer.drop 10) _ goesOn
  exact ⟨s, s', run, later, log, folded, installed,
    compacted_agreement (by decide) run later committed committed'⟩

end Cluster

end DistribKV
