import DistribKV.Cluster.Votes
import DistribKV.Consensus.Runs

/-!
# Election safety

`sendRequestVote` counts votes in one critical section and `becomeLeader`
promotes in a later one, which only looks at the role.  When the two happen in
the same term, a promotion is backed by a majority and no term has two leaders.
The election timer may fire in between, and then a node is promoted in a term in
which nobody but itself has voted for it.

The proof follows every vote from the campaign that asks for it to the count:
for each candidate, peer and term at most one of them is under way or counted.
-/

namespace DistribKV

/-! ## The runs -/

def Action.isRestart : Action → Bool
  | .restart _ => true
  | _ => false

def Action.isDuplicate : Action → Bool
  | .duplicate _ => true
  | _ => false

namespace Cluster

open Consensus

/-- No node crashes and the network duplicates nothing; it may still lose, delay
and reorder messages. -/
def Undisturbed (_ : Cluster) (a : Action) : Prop :=
  a.isRestart = false ∧ a.isDuplicate = false

instance (s : Cluster) (a : Action) : Decidable (Undisturbed s a) :=
  inferInstanceAs (Decidable (_ ∧ _))

/-- A promotion takes place in the term in which the votes were counted. -/
@[reducible] def PromotesInTime (s : Cluster) : Action → Prop
  | .becomeLeader i term => (s.node i).state = .candidate → (s.node i).currentTerm = term
  | _ => True

instance (s : Cluster) : DecidablePred s.PromotesInTime := Action.decidable _

/-! ## Votes under way -/

/-- The task is about to ask `q` for a vote for `i` in the given term. -/
def asksIn (i q : Int) (term : Nat) : Task → Bool
  | .campaign node term' => decide (node = i ∧ term' = term)
  | .sendRequestVote node peer term' => decide (node = i ∧ peer = q ∧ term' = term)
  | _ => false

/-- The message asks for that vote, or answers. -/
def carriesVote (i q : Int) (term : Nat) : Packet → Bool
  | .requestVote src dst req => decide (src = i ∧ dst = q ∧ req.term = term)
  | .requestVoteReply src dst term' _ => decide (src = i ∧ dst = q ∧ term' = term)
  | _ => false

/-- The event counts that vote. -/
def countsVote (i q : Int) (term : Nat) : Event → Bool
  | .counted node voter term' => decide (node = i ∧ voter = q ∧ term' = term)
  | _ => false

/-- The event counts some vote for `i` in the given term. -/
def countsFor (i : Int) (term : Nat) : Event → Bool
  | .counted node _ term' => decide (node = i ∧ term' = term)
  | _ => false

/-- How often the vote of `q` for `i` in a term is under way or counted. -/
def underWay (s : Cluster) (i q : Int) (term : Nat) : Nat :=
  s.tasks.countP (asksIn i q term) + s.net.countP (carriesVote i q term) +
    s.history.countP (countsVote i q term)

/-- The counting invariant. -/
structure Counting (s : Cluster) : Prop where
  once : ∀ i q term, s.underWay i q term ≤ 1
  future : ∀ i q term, (s.node i).currentTerm < term → s.underWay i q term = 0
  received : ∀ i, (s.node i).state = .candidate → (s.node i).votesReceived =
    1 + s.history.countP (countsFor i (s.node i).currentTerm)
  elected : ∀ i term, .becomeLeader i term ∈ s.tasks →
    term ≤ (s.node i).currentTerm ∧
      (term = (s.node i).currentTerm → (s.node i).state = .candidate →
        (s.node i).peers.length / 2 < (s.node i).votesReceived)

variable {m : Membership} {threshold : Int} {s s' : Cluster} {a : Action} {o : Outcome}

/-- A step without restart never lowers a term. -/
theorem term_le_of_effect (effect : Effect m s a o) (noCrash : a.isRestart = false) :
    (s.node o.node).currentTerm ≤ o.raft.currentTerm := by
  rcases term_le_or_restart effect with le | ⟨restart, -⟩
  · exact le
  · simp [restart, Action.isRestart] at noCrash

theorem countP_commitEvent {p : Event → Bool}
    (ignores : ∀ i term n log, p (.committed i term n log) = false) (i : Int)
    (folded : List LogEntry) (r r' : Raft) : (commitEvent i folded r r').countP p = 0 := by
  unfold commitEvent
  split <;> simp [ignores]

theorem countP_fanOut (i q : Int) (term : Nat) (j : Int) (r : Raft) :
    (fanOut j r).countP (asksIn i q term) = 0 := by
  simp [fanOut, List.countP_eq_zero, asksIn]

/-- A campaign asks every peer at most once. -/
theorem countP_campaignTasks {j : Int} {peers : List Peer}
    (nodup : (peers.map (·.id)).Nodup) (i q : Int) (term term' : Nat) :
    (campaignTasks j peers term').countP (asksIn i q term) ≤
      [Task.campaign j term'].countP (asksIn i q term) := by
  unfold campaignTasks
  split
  · simp [asksIn]
  · by_cases same : j = i ∧ term' = term
    · have one : (peers.map (·.id)).count q ≤ 1 := List.nodup_iff_count_le_one.mp nodup q
      simpa [asksIn, same, List.countP_map, List.count, Function.comp_def, beq_eq_decide]
        using one
    · have none : ∀ p : Peer, ¬ (j = i ∧ p.id = q ∧ term' = term) :=
        fun p both => same ⟨both.1, both.2.2⟩
      simp [asksIn, List.countP_map, Function.comp_def, none]

namespace Counting

theorem initial (m : Membership) (threshold : Int) : Counting (init m threshold) where
  once _ _ _ := by simp [underWay, init]
  future _ _ _ _ := by simp [underWay, init]
  received _ candidate := by
    simp [init, Raft.newRaft, Raft.loadPersistedState, Raft.fresh, Raft.start] at candidate
  elected _ _ pending := by simp [init] at pending

/-- Votes move on from one stage to the next; only a new campaign adds some. -/
theorem flow (static : Static m threshold s) (effect : Effect m s a o)
    (noCopy : a.isDuplicate = false) (i q : Int) (term : Nat) :
    o.tasks.countP (asksIn i q term) + o.packets.countP (carriesVote i q term) +
        o.events.countP (countsVote i q term) ≤
      o.finished.countP (asksIn i q term) + o.delivered.countP (carriesVote i q term) ∨
    i = o.node ∧ term = (s.node i).currentTerm + 1 ∧ term = o.raft.currentTerm ∧
      o.tasks.countP (asksIn i q term) + o.packets.countP (carriesVote i q term) +
        o.events.countP (countsVote i q term) ≤ 1 := by
  cases effect with
  | duplicate => simp [Action.isDuplicate] at noCopy
  | @stand j disk =>
      by_cases same : j = i ∧ (s.node j).currentTerm + 1 = term
      · obtain ⟨rfl, rfl⟩ := same
        exact .inr ⟨rfl, rfl, rfl, by simp [asksIn, countsVote]⟩
      · exact .inl (by simp [asksIn, countsVote, same])
  | @campaign j term' =>
      have nodup : ((s.node j).peers.map (·.id)).Nodup := by
        rw [static.peers]
        exact m.nodup.filter _
      simpa using Or.inl (countP_campaignTasks nodup i q term term')
  | sendRequestVote => simp [asksIn, carriesVote, Raft.requestVoteRequest]
  | refuseVote => simp [carriesVote]
  | grantVote => simp [carriesVote, countsVote]
  | countVote =>
      left
      simp only [List.countP_nil, Nat.add_zero, Nat.zero_add]
      split <;> simp [asksIn, carriesVote, countsVote]
  | heartbeat => simp [countP_fanOut]
  | replicate =>
      simp [countP_fanOut, asksIn, countsVote,
        countP_commitEvent (p := countsVote i q term) fun _ _ _ _ => rfl]
  | recordMatch =>
      simp [countP_commitEvent (p := countsVote i q term) fun _ _ _ _ => rfl]
  | recordInstall =>
      simp [countP_commitEvent (p := countsVote i q term) fun _ _ _ _ => rfl]
  | install _ _ _ replies =>
      left
      have none : List.countP (carriesVote i q term) _ = 0 :=
        List.countP_eq_zero.mpr fun packet member => by
          obtain ⟨_, rfl⟩ := replies packet member
          simp [carriesVote]
      simp [none]
  | yield => simp
  | apply => simp
  | standUnsaved => simp [countsVote]
  | promote => simp [countsVote]
  | sendAppendEntries => simp [carriesVote]
  | startInstall => simp [asksIn]
  | sendInstallSnapshot => simp [carriesVote]
  | refuseAppend => simp [carriesVote]
  | appendUnsaved => simp
  | append => simp [carriesVote, countsVote]
  | retry => simp [asksIn]
  | answerInstall => simp [carriesVote]
  | compact => simp
  | restart => simp

/-- Bookkeeping of one step: what is under way afterwards. -/
theorem underWay_le (applies : Applies s o s') (i q : Int) (term : Nat) :
    s'.underWay i q term + (o.finished.countP (asksIn i q term) +
        o.delivered.countP (carriesVote i q term)) ≤
      s.underWay i q term + (o.tasks.countP (asksIn i q term) +
        o.packets.countP (carriesVote i q term) +
        o.events.countP (countsVote i q term)) := by
  have tasks := applies.tasks.countP_le (asksIn i q term)
  have net := applies.net.countP_le (carriesVote i q term)
  simp only [List.countP_append] at tasks net
  simp only [underWay, applies.history, List.countP_append]
  omega

/-- Every vote is under way or counted at most once, and only in terms that have
begun. -/
theorem once_of_step (static : Static m threshold s) (counting : Counting s)
    (effect : Effect m s a o) (applies : Applies s o s') (allowed : Undisturbed s a)
    (i q : Int) (term : Nat) :
    s'.underWay i q term ≤ 1 ∧
      ((s'.node i).currentTerm < term → s'.underWay i q term = 0) := by
  have bound := underWay_le applies i q term
  have once := counting.once i q term
  have future := counting.future i q term
  have termLe : (s.node i).currentTerm ≤ (s'.node i).currentTerm := by
    by_cases acts : i = o.node
    · rw [acts, applies.node_self]
      exact term_le_of_effect effect allowed.1
    · rw [applies.node_of_ne acts]
  rcases flow static effect allowed.2 i q term with moved | ⟨rfl, next, begun, added⟩
  · exact ⟨by omega, fun lt => by have := future (by omega); omega⟩
  · have fresh := future (by omega)
    rw [applies.node_self]
    exact ⟨by omega, fun lt => by omega⟩

/-- Within a term a candidate's count grows with the counted votes. -/
theorem received_of_effect (effect : Effect m s a o)
    (sameTerm : o.raft.currentTerm = (s.node o.node).currentTerm)
    (candidate : o.raft.state = .candidate) :
    (s.node o.node).state = .candidate ∧ o.raft.votesReceived =
      (s.node o.node).votesReceived +
        o.events.countP (countsFor o.node (s.node o.node).currentTerm) := by
  cases effect with
  | yield yields =>
      obtain ⟨-, role, votes⟩ := yields.same sameTerm
      exact ⟨role ▸ candidate, by simpa using votes⟩
  | refuseVote _ yields =>
      obtain ⟨-, role, votes⟩ := yields.same sameTerm
      exact ⟨role ▸ candidate, by simpa using votes⟩
  | refuseAppend _ yields =>
      obtain ⟨-, role, votes⟩ := yields.same sameTerm
      exact ⟨role ▸ candidate, by simpa using votes⟩
  | answerInstall _ yields =>
      obtain ⟨-, role, votes⟩ := yields.same sameTerm
      exact ⟨role ▸ candidate, by simpa using votes⟩
  | appendUnsaved _ yields =>
      obtain ⟨-, role, votes⟩ := yields.same sameTerm
      exact ⟨role ▸ candidate, by simpa using votes⟩
  | append _ yields _ _ stored =>
      subst stored
      obtain ⟨-, role, votes⟩ := yields.same sameTerm
      exact ⟨role ▸ candidate, by simpa [countsFor] using votes⟩
  | install _ installs installed =>
      subst installed
      obtain ⟨-, role, votes⟩ := installs.yields.same sameTerm
      exact ⟨role ▸ candidate, by simpa [Raft.install] using votes⟩
  | @grantVote src dst req disk r inNet grants =>
      obtain ⟨-, -, -, result⟩ := grants
      subst result
      obtain ⟨-, role, votes⟩ :=
        (Raft.Yields.adoptTerm (s.node dst) req.term).same sameTerm
      exact ⟨role ▸ candidate,
        by simpa [countsFor, Raft.resetElectionTimerLocked, Raft.saved] using votes⟩
  | countVote _ current isCandidate => exact ⟨isCandidate, by simp [countsFor, current]⟩
  | replicate _ leads _ stored =>
      subst stored
      simp [Raft.saved, leads] at candidate
  | recordMatch _ leads _ _ updated =>
      subst updated
      simp [Raft.updatePeer, leads] at candidate
  | recordInstall _ leads updated =>
      subst updated
      simp [Raft.updatePeer, leads] at candidate
  | retry _ leads => simp [Raft.updatePeer, leads] at candidate
  | compact _ _ _ _ compacted =>
      subst compacted
      exact ⟨candidate, rfl⟩
  | restart => simp at candidate
  | promote => cases candidate
  | standUnsaved => simp [Raft.enterCandidate] at sameTerm
  | stand => simp [Raft.enterCandidate, Raft.saved] at sameTerm
  | campaign => exact ⟨candidate, rfl⟩
  | apply => exact ⟨candidate, rfl⟩
  | duplicate => exact ⟨candidate, rfl⟩
  | sendRequestVote => exact ⟨candidate, rfl⟩
  | heartbeat => exact ⟨candidate, rfl⟩
  | sendAppendEntries => exact ⟨candidate, rfl⟩
  | startInstall => exact ⟨candidate, rfl⟩
  | sendInstallSnapshot => exact ⟨candidate, rfl⟩

/-- Nobody counts votes for another node. -/
theorem countsFor_other (effect : Effect m s a o) {i : Int} (ne : i ≠ o.node)
    (term : Nat) : o.events.countP (countsFor i term) = 0 := by
  cases effect with
  | countVote => simp [countsFor, Ne.symm ne]
  | replicate =>
      simp [countsFor, countP_commitEvent (p := countsFor i term) fun _ _ _ _ => rfl]
  | recordMatch => simp [countP_commitEvent (p := countsFor i term) fun _ _ _ _ => rfl]
  | recordInstall => simp [countP_commitEvent (p := countsFor i term) fun _ _ _ _ => rfl]
  | _ => simp [countsFor]

/-- Votes counted for a candidate in a term, one by one or all together. -/
theorem countsFor_eq_zero {history : List Event} {i : Int} {term : Nat}
    (none : ∀ q, history.countP (countsVote i q term) = 0) :
    history.countP (countsFor i term) = 0 := by
  rw [List.countP_eq_zero]
  intro event member counts
  cases event with
  | counted node voter term' =>
      have here := List.countP_eq_zero.mp (none voter) _ member
      simp only [countsFor, decide_eq_true_eq] at counts
      simp [countsVote, counts] at here
  | _ => cases counts

theorem received_of_step (counting : Counting s) (effect : Effect m s a o)
    (applies : Applies s o s') (allowed : Undisturbed s a) (i : Int)
    (candidate : (s'.node i).state = .candidate) :
    (s'.node i).votesReceived =
      1 + s'.history.countP (countsFor i (s'.node i).currentTerm) := by
  rw [applies.history, List.countP_append]
  by_cases acts : i = o.node
  · subst acts
    rw [applies.node_self] at candidate ⊢
    rcases Nat.eq_or_lt_of_le (term_le_of_effect effect allowed.1) with same | higher
    · obtain ⟨wasCandidate, votes⟩ := received_of_effect effect same.symm candidate
      rw [votes, counting.received _ wasCandidate, same]
      omega
    · -- a new candidacy: no vote of its term has been counted yet
      have fresh : s.history.countP (countsFor o.node o.raft.currentTerm) = 0 := by
        refine countsFor_eq_zero fun q => ?_
        have none := counting.future o.node q _ higher
        unfold underWay at none
        omega
      rw [fresh]
      cases turn_of_effect effect with
      | keeps keeps =>
          rw [keeps.higher higher] at candidate
          cases candidate
      | stands _ _ raft events =>
          rcases raft with raft | raft <;>
            simp [raft, events, Raft.enterCandidate, Raft.saved, countsFor]
      | leads _ _ raft =>
          rw [raft] at candidate
          cases candidate
      | restarts action => simp [action, Undisturbed, Action.isRestart] at allowed
  · rw [applies.node_of_ne acts] at candidate ⊢
    rw [countsFor_other effect acts, counting.received i candidate]
    omega

/-- A pending promotion was decided on a count that still stands, or belongs to
an earlier term. -/
theorem elected_of_step (counting : Counting s) (effect : Effect m s a o)
    (applies : Applies s o s') (allowed : Undisturbed s a) (i : Int) (term : Nat)
    (pending : .becomeLeader i term ∈ s'.tasks) :
    term ≤ (s'.node i).currentTerm ∧
      (term = (s'.node i).currentTerm → (s'.node i).state = .candidate →
        (s'.node i).peers.length / 2 < (s'.node i).votesReceived) := by
  have config := configured_of_effect effect
  have termLe := term_le_of_effect effect allowed.1
  rcases applies.mem_tasks pending with new | old
  · cases effect with
    | stand => simp at new
    | startInstall => simp at new
    | retry => simp at new
    | @campaign j term' inTasks =>
        -- a cluster of one: the own vote is enough
        simp only [campaignTasks] at new
        split at new
        next alone =>
          cases List.mem_singleton.mp new
          have began : term ≤ (s.node i).currentTerm := by
            by_contra future
            have none := counting.future i i term (Nat.not_le.mp future)
            have here : 0 < s.tasks.countP (asksIn i i term) :=
              List.countP_pos_iff.mpr ⟨_, inTasks, by simp [asksIn]⟩
            unfold underWay at none
            omega
          rw [applies.node_self]
          refine ⟨began, fun _ candidate => ?_⟩
          have received := counting.received i candidate
          simp only [Raft.resetElectionTimerLocked]
          omega
        · simp at new
    | countVote _ current candidate =>
        simp only at new
        split at new
        next majority =>
          cases List.mem_singleton.mp new
          rw [applies.node_self]
          exact ⟨current.ge, fun _ _ => majority⟩
        · cases new
    | heartbeat => simp [fanOut] at new
    | replicate => simp [fanOut] at new
    | _ => simp at new
  · obtain ⟨began, majority⟩ := counting.elected i term old
    by_cases acts : i = o.node
    · subst acts
      rw [applies.node_self]
      refine ⟨by omega, fun here candidate => ?_⟩
      obtain ⟨wasCandidate, votes⟩ := received_of_effect effect (by omega) candidate
      have sameLength : o.raft.peers.length = (s.node o.node).peers.length := by
        simpa using congrArg List.length config.peers
      have before := majority (by omega) wasCandidate
      omega
    · rw [applies.node_of_ne acts]
      exact ⟨began, majority⟩

theorem step (static : Static m threshold s) (counting : Counting s)
    (allowed : Undisturbed s a) (stepped : s.step m a = some s') : Counting s' := by
  obtain ⟨o, effect, applies⟩ := effect_of_step stepped
  exact
    { once := fun i q term =>
        (counting.once_of_step static effect applies allowed i q term).1
      future := fun i q term =>
        (counting.once_of_step static effect applies allowed i q term).2
      received := counting.received_of_step effect applies allowed
      elected := counting.elected_of_step effect applies allowed }

/-- The number of votes a candidate has counted is the number of members behind
it. -/
theorem card_voters (static : Static m threshold s) (counting : Counting s) (i : Int)
    (term : Nat) :
    (s.voters i term).card = 1 + s.history.countP (countsFor i term) := by
  have nodup : (s.countedVoters i term).Nodup := by
    rw [List.nodup_iff_count_le_one]
    intro q
    have same : (s.countedVoters i term).count q = s.history.countP (countsVote i q term) := by
      rw [countedVoters, List.count, List.countP_filterMap]
      refine List.countP_congr fun event _ => ?_
      cases event with
      | counted node voter term' =>
          by_cases here : node = i ∧ term' = term
          · simp [Event.voterFor, countsVote, here]
          · have elsewhere : ¬ (node = i ∧ voter = q ∧ term' = term) :=
              fun all => here ⟨all.1, all.2.2⟩
            simp [Event.voterFor, countsVote, here, elsewhere]
      | _ => simp [Event.voterFor, countsVote]
    have once := counting.once i q term
    unfold underWay at once
    omega
  have notSelf : i ∉ (s.countedVoters i term).toFinset := by
    rw [List.mem_toFinset, mem_countedVoters]
    intro counted
    exact (static.counted i i term counted).2 rfl
  have length : (s.countedVoters i term).length = s.history.countP (countsFor i term) := by
    rw [countedVoters, List.length_filterMap_eq_countP]
    refine List.countP_congr fun event _ => ?_
    cases event with
    | counted node voter term' =>
        by_cases here : node = i ∧ term' = term <;> simp [Event.voterFor, countsFor, here]
    | _ => simp [Event.voterFor, countsFor]
  rw [voters, Finset.card_insert_of_notMem notSelf, List.toFinset_card_of_nodup nodup, length]
  omega

end Counting

/-- Every member has one peer less than the cluster has members. -/
theorem Static.card_population (static : Static m threshold s) {i : Int}
    (member : i ∈ m.ids) : (population m).card = (s.node i).peers.length + 1 := by
  have length : (s.node i).peers.length = (m.ids.filter (· ≠ i)).length := by
    rw [← static.peers i, List.length_map]
  rw [population, List.toFinset_card_of_nodup m.nodup, length, m.length_others member]

theorem Static.voters_subset (static : Static m threshold s) {i : Int}
    (member : i ∈ m.ids) (term : Nat) : s.voters i term ⊆ population m := by
  intro q inVoters
  rw [population, List.mem_toFinset]
  rcases mem_voters.mp inVoters with rfl | counted
  · exact member
  · exact (static.counted i q term counted).1

theorem voters_mono (applies : Applies s o s') (i : Int) (term : Nat) :
    s.voters i term ⊆ s'.voters i term := by
  intro q member
  exact mem_voters.mpr ((mem_voters.mp member).imp_right applies.history_mono)

/-- In a cluster of odd size, a promotion that is in time is backed by a strict
majority. -/
theorem majority_of_promotion (odd : m.ids.length % 2 = 1)
    (static : Static m threshold s) (counting : Counting s) {i : Int} {term : Nat}
    (pending : .becomeLeader i term ∈ s.tasks)
    (candidate : (s.node i).state = .candidate)
    (inTime : (s.node i).currentTerm = term) :
    Majority (population m) (s.voters i term) := by
  have member := static.candidate_mem candidate
  refine ⟨static.voters_subset member term, ?_⟩
  have enough := (counting.elected i term pending).2 inTime.symm candidate
  rw [counting.received i candidate, inTime] at enough
  have size := static.card_population member
  have sameSize : (population m).card = m.ids.length :=
    List.toFinset_card_of_nodup m.nodup
  rw [counting.card_voters static, size]
  omega

/-! ## The theorem -/

/-- All invariants of undisturbed runs whose promotions are in time. -/
structure SafeElections (m : Membership) (threshold : Int) (s : Cluster) : Prop where
  static : Static m threshold s
  voting : Voting s
  counting : Counting s
  backed : ∀ i term log, .promoted i term log ∈ s.history →
    Majority (population m) (s.voters i term)

theorem SafeElections.initial (m : Membership) (threshold : Int) :
    SafeElections m threshold (init m threshold) :=
  ⟨.initial m threshold, .initial m threshold, .initial m threshold,
    fun _ _ _ member => by simp [init] at member⟩

theorem SafeElections.step (fits : m.Fits) (odd : m.ids.length % 2 = 1)
    (safe : SafeElections m threshold s) (allowed : Undisturbed s a ∧ s.PromotesInTime a)
    (stepped : s.step m a = some s') : SafeElections m threshold s' := by
  obtain ⟨undisturbed, inTime⟩ := allowed
  have static := safe.static.step stepped
  have noRestart : ∀ i, a = .restart i → s.Remembers i := by
    rintro i rfl
    exact absurd undisturbed.1 (by simp [Action.isRestart])
  refine ⟨static, safe.voting.step fits safe.static noRestart stepped,
    safe.counting.step safe.static undisturbed stepped, fun i term log member => ?_⟩
  obtain ⟨o, effect, applies⟩ := effect_of_step stepped
  have majority : Majority (population m) (s.voters i term) := by
    rcases applies.mem_history.mp member with new | old
    · obtain ⟨-, rfl, -, candidate, -, counted, rfl, pending⟩ :=
        promoted_of_effect effect new
      exact majority_of_promotion odd safe.static safe.counting (inTime candidate ▸ pending)
        candidate rfl
    · exact safe.backed i term log old
  have member := majority.1 (mem_voters.mpr (.inl rfl))
  rw [population, List.mem_toFinset] at member
  exact majority.mono (voters_mono applies i term) (static.voters_subset member term)

/-- Election safety: in a cluster of odd size without crashes, if ids survive the
wire and every promotion takes place in the term in which its votes were counted,
then no two nodes ever enter the leader role in one term. -/
theorem promoted_unique (fits : m.Fits) (odd : m.ids.length % 2 = 1)
    (run : Run (step m) (fun s a => Undisturbed s a ∧ s.PromotesInTime a)
      (init m threshold) s)
    {i j : Int} {term : Nat} {log log' : List LogEntry}
    (first : .promoted i term log ∈ s.history)
    (second : .promoted j term log' ∈ s.history) : i = j := by
  have safe : SafeElections m threshold s :=
    run.invariant (.initial m threshold) fun safe allowed stepped =>
      safe.step fits odd allowed stepped
  exact safe.voting.same_candidate (safe.voting.promoted first) (safe.voting.promoted second)
    (safe.backed i term log first) (safe.backed j term log' second)

/-! ## A cluster of three -/

/-- A cluster definition with the nodes `0`, `1` and `2`. -/
def threeNodes : Membership := ⟨[0, 1, 2], by decide, by decide⟩

/-- Node `0` is elected in term `1` with the vote of node `1`. -/
def election : List Action :=
  [.electionTimeout 0 {}, .campaign 0 1, .sendRequestVote 0 1 1,
    .receive (.requestVote 0 1 ⟨1, 0, 0, 0⟩) {},
    .receive (.requestVoteReply 0 1 1 ⟨1, true⟩) {},
    .becomeLeader 0 1]

/-- The conditions of election safety can be met by a run with an election. -/
theorem promoted_unique_election :
    ∃ s, Run (step threeNodes) (fun s a => Undisturbed s a ∧ s.PromotesInTime a)
        (init threeNodes 0) s ∧
      .promoted 0 1 [] ∈ s.history ∧
      ∀ j log, .promoted j 1 log ∈ s.history → 0 = j := by
  have reached : ∃ s, Run (step threeNodes) (fun s a => Undisturbed s a ∧ s.PromotesInTime a)
      (init threeNodes 0) s ∧ .promoted 0 1 [] ∈ s.history :=
    exists_run_of_perform election _ (by decide +kernel)
  obtain ⟨s, run, promoted⟩ := reached
  exact ⟨s, run, promoted, fun j log other =>
    promoted_unique (by decide) (by decide) run promoted other⟩

/-- Node `0` counts a majority in term `1`, but its election timer fires before
it takes the lock again: it is promoted in term `2`.  Node `1` then wins term `2`
with the vote of node `2`. -/
def lateElection : List Action :=
  [.electionTimeout 0 {}, .campaign 0 1, .sendRequestVote 0 1 1,
    .receive (.requestVote 0 1 ⟨1, 0, 0, 0⟩) {},
    .receive (.requestVoteReply 0 1 1 ⟨1, true⟩) {},
    .electionTimeout 0 {},
    .becomeLeader 0 1,
    .electionTimeout 1 {}, .campaign 1 2, .sendRequestVote 1 2 2,
    .receive (.requestVote 1 2 ⟨2, 1, 0, 0⟩) {},
    .receive (.requestVoteReply 1 2 2 ⟨2, true⟩) {},
    .becomeLeader 1 2]

/-- Two different nodes enter the leader role in term `2`. -/
theorem two_leaders_in_one_term :
    ∃ s, Run (step threeNodes) Undisturbed (init threeNodes 0) s ∧
      .promoted 0 2 [] ∈ s.history ∧ .promoted 1 2 [] ∈ s.history :=
  exists_run_of_perform lateElection _ (by decide +kernel)

end Cluster

end DistribKV
