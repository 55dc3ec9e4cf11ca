import DistribKV.Cluster.Static
import DistribKV.Consensus.Majority
import DistribKV.Raft.Votes
import Mathlib.Data.Finset.Insert

/-!
# Votes in the cluster

Every member gives at most one vote in a term, every vote that is on its way or
has been counted was given, and two majorities of votes for one term are for the
same candidate.  All this survives restarts that forget no vote.
-/

namespace DistribKV

/-- The vote of node `i` that an event records, as a term and a candidate. -/
def Event.vote (i : Int) : Event → Option (Nat × Int)
  | .candidacy node term => if node = i then some (term, node) else none
  | .granted voter term req => if voter = i then some (term, req.candidateId) else none
  | _ => none

/-- The voter whose vote for `i` in a term the event counts. -/
def Event.voterFor (i : Int) (term : Nat) : Event → Option Int
  | .counted node voter term' => if node = i ∧ term' = term then some voter else none
  | _ => none

namespace Cluster

open Consensus

/-- All votes node `i` has given, own candidacies included. -/
def votes (s : Cluster) (i : Int) : List (Nat × Int) := s.history.filterMap (Event.vote i)

theorem mem_votes {s : Cluster} {i candidate : Int} {term : Nat} :
    (term, candidate) ∈ s.votes i ↔
      (.candidacy i term ∈ s.history ∧ candidate = i) ∨
        ∃ req, .granted i term req ∈ s.history ∧ req.candidateId = candidate := by
  simp only [votes, List.mem_filterMap]
  constructor
  · rintro ⟨event, member, records⟩
    cases event with
    | candidacy node term' =>
        simp only [Event.vote] at records
        split at records
        next same =>
          cases records
          exact .inl ⟨same ▸ member, same⟩
        · cases records
    | granted voter term' req =>
        simp only [Event.vote] at records
        split at records
        next same =>
          cases records
          exact .inr ⟨req, same ▸ member, rfl⟩
        · cases records
    | _ => cases records
  · rintro (⟨member, rfl⟩ | ⟨req, member, rfl⟩)
    · exact ⟨_, member, by simp [Event.vote]⟩
    · exact ⟨_, member, by simp [Event.vote]⟩

/-- Every vote node `i` has given is of an older term than the stored one, or is
the stored vote of the stored term. -/
def Remembers (s : Cluster) (i : Int) : Prop :=
  ∀ vote ∈ s.votes i, vote.1 < (s.node i).persister.term ∨
    vote.1 = (s.node i).persister.term ∧ vote.2 = (s.node i).persister.vote

instance (s : Cluster) (i : Int) : Decidable (s.Remembers i) :=
  inferInstanceAs (Decidable (∀ vote ∈ s.votes i, _ ∨ _ ∧ _))

/-- The members whose votes node `i` has counted in a term. -/
def countedVoters (s : Cluster) (i : Int) (term : Nat) : List Int :=
  s.history.filterMap (Event.voterFor i term)

theorem mem_countedVoters {s : Cluster} {i q : Int} {term : Nat} :
    q ∈ s.countedVoters i term ↔ .counted i q term ∈ s.history := by
  simp only [countedVoters, List.mem_filterMap]
  refine ⟨?_, fun member => ⟨_, member, by simp [Event.voterFor]⟩⟩
  rintro ⟨event, member, records⟩
  cases event with
  | counted node voter term' =>
      simp only [Event.voterFor, Option.ite_none_right_eq_some, Option.some.injEq] at records
      obtain ⟨⟨rfl, rfl⟩, rfl⟩ := records
      exact member
  | _ => cases records

/-- The members behind a candidate: those whose votes it counted, and itself. -/
def voters (s : Cluster) (i : Int) (term : Nat) : Finset Int :=
  insert i (s.countedVoters i term).toFinset

theorem mem_voters {s : Cluster} {i q : Int} {term : Nat} :
    q ∈ s.voters i term ↔ q = i ∨ .counted i q term ∈ s.history := by
  rw [voters, Finset.mem_insert, List.mem_toFinset, mem_countedVoters]

/-- The members of a cluster as a finite population. -/
def population (m : Membership) : Finset Int := m.ids.toFinset

/-- What relates votes, messages and history. -/
structure Voting (s : Cluster) : Prop where
  oneVote : ∀ i, (s.node i).OneVote fun term candidate => (term, candidate) ∈ s.votes i
  requests : ∀ {src dst req}, .requestVote src dst req ∈ s.net → req.candidateId = src
  replies : ∀ {src dst term resp}, .requestVoteReply src dst term resp ∈ s.net →
    resp.voteGranted = true → ∃ req, .granted dst term req ∈ s.history ∧
      req.candidateId = src
  counted : ∀ {i q term}, .counted i q term ∈ s.history →
    ∃ req, .granted q term req ∈ s.history ∧ req.candidateId = i
  promoted : ∀ {i term log}, .promoted i term log ∈ s.history →
    .candidacy i term ∈ s.history
  candidates : ∀ {i}, (s.node i).state = .candidate →
    .candidacy i (s.node i).currentTerm ∈ s.history

variable {m : Membership} {threshold : Int} {s s' : Cluster} {a : Action} {o : Outcome}

@[simp] theorem filterMap_vote_commitEvent (i j : Int) (folded : List LogEntry)
    (r r' : Raft) : (commitEvent j folded r r').filterMap (Event.vote i) = [] := by
  unfold commitEvent
  split <;> rfl

namespace Voting

theorem initial (m : Membership) (threshold : Int) : Voting (init m threshold) where
  oneVote _ := .of_none fun _ _ given => by simp [votes, init] at given
  requests inNet := by simp [init] at inNet
  replies inNet := by simp [init] at inNet
  counted member := by simp [init] at member
  promoted member := by simp [init] at member
  candidates candidate := by
    simp [init, Raft.newRaft, Raft.loadPersistedState, Raft.fresh, Raft.start] at candidate

/-- Only the node that acts gives votes, and it keeps its one-vote invariant. -/
theorem oneVote_of_effect (static : Static m threshold s) (voting : Voting s)
    (remembers : ∀ i, a = .restart i → s.Remembers i) (effect : Effect m s a o) :
    (o.raft.OneVote fun term candidate =>
        (term, candidate) ∈ o.events.filterMap (Event.vote o.node) ++ s.votes o.node) ∧
      ∀ j, j ≠ o.node → o.events.filterMap (Event.vote j) = [] := by
  have nonneg : ∀ {i : Int}, i ∈ m.ids → i ≠ -1 := by
    rintro i member rfl
    have := m.nonneg _ member
    omega
  have quiet : ∀ {i : Int} {r : Raft}, (s.node i).Yields r →
      r.OneVote fun term candidate => (term, candidate) ∈ s.votes i :=
    fun yields => (voting.oneVote _).yields yields
  have unchanged : ∀ {i : Int} {r : Raft}, r.currentTerm = (s.node i).currentTerm →
      r.votedFor = (s.node i).votedFor →
      r.OneVote fun term candidate => (term, candidate) ∈ s.votes i :=
    fun term vote => (voting.oneVote _).congr term vote fun given => given
  have standing : ∀ {i : Int} {r : Raft}, i ∈ m.ids →
      r.currentTerm = (s.node i).currentTerm + 1 → r.votedFor = (s.node i).serverId →
      r.OneVote fun term candidate => (term, candidate) ∈
        [Event.candidacy i ((s.node i).currentTerm + 1)].filterMap (Event.vote i) ++
          s.votes i := by
    intro i r member term vote
    refine (voting.oneVote i).stands ?_ term vote ?_
    · rw [static.serverId]
      exact nonneg member
    · intro t c given
      rw [static.serverId]
      simpa [Event.vote, or_comm] using given
  cases effect with
  | yield yields => exact ⟨quiet yields, fun _ _ => rfl⟩
  | refuseVote _ yields => exact ⟨quiet yields, fun _ _ => rfl⟩
  | refuseAppend _ yields => exact ⟨quiet yields, fun _ _ => rfl⟩
  | answerInstall _ yields => exact ⟨quiet yields, fun _ _ => rfl⟩
  | campaign => exact ⟨quiet (.resetElectionTimer _), fun _ _ => rfl⟩
  | standUnsaved member =>
      exact ⟨standing member rfl rfl, fun j ne => by simp [Event.vote, Ne.symm ne]⟩
  | stand member =>
      exact ⟨standing member rfl rfl, fun j ne => by simp [Event.vote, Ne.symm ne]⟩
  | @grantVote src dst req disk r inNet grants =>
      refine ⟨(voting.oneVote dst).grants grants ?_ ?_, fun j ne => ?_⟩
      · rw [voting.requests inNet]
        exact nonneg (static.net _ inNet).1
      · intro t c given
        simpa [Event.vote, or_comm] using given
      · simp [Event.vote, Ne.symm ne]
  | appendUnsaved _ yields =>
      exact ⟨(quiet yields).congr rfl rfl fun given => given, fun _ _ => rfl⟩
  | append _ yields _ _ stored =>
      rw [stored]
      exact ⟨(quiet yields).congr rfl rfl fun given => given, fun _ _ => rfl⟩
  | install _ installs installed =>
      rw [installed]
      exact ⟨(quiet installs.yields).congr rfl rfl fun given => given, fun _ _ => rfl⟩
  | compact _ _ _ _ compacted =>
      rw [compacted]
      exact ⟨unchanged rfl rfl, fun _ _ => rfl⟩
  | replicate _ _ _ stored =>
      refine ⟨?_, fun j _ => by simp [Event.vote]⟩
      simp only [List.filterMap_append, filterMap_vote_commitEvent]
      exact unchanged (by simp [stored, Raft.saved]) (by simp [stored, Raft.saved])
  | recordMatch _ _ _ _ updated =>
      refine ⟨?_, fun j _ => by simp⟩
      simp only [filterMap_vote_commitEvent]
      exact unchanged (by simp [updated, Raft.updatePeer]) (by simp [updated, Raft.updatePeer])
  | recordInstall _ _ updated =>
      refine ⟨?_, fun j _ => by simp⟩
      simp only [filterMap_vote_commitEvent]
      exact unchanged (by simp [updated, Raft.updatePeer]) (by simp [updated, Raft.updatePeer])
  | restart =>
      refine ⟨(voting.oneVote _).restart ?_, fun _ _ => rfl⟩
      intro t c given
      exact remembers _ rfl (t, c) given
  | countVote => exact ⟨unchanged rfl rfl, fun _ _ => rfl⟩
  | promote => exact ⟨unchanged rfl rfl, fun _ _ => rfl⟩
  | retry => exact ⟨unchanged rfl rfl, fun _ _ => rfl⟩
  | apply => exact ⟨unchanged rfl rfl, fun _ _ => rfl⟩
  | duplicate => exact ⟨unchanged rfl rfl, fun _ _ => rfl⟩
  | sendRequestVote => exact ⟨unchanged rfl rfl, fun _ _ => rfl⟩
  | heartbeat => exact ⟨unchanged rfl rfl, fun _ _ => rfl⟩
  | sendAppendEntries => exact ⟨unchanged rfl rfl, fun _ _ => rfl⟩
  | startInstall => exact ⟨unchanged rfl rfl, fun _ _ => rfl⟩
  | sendInstallSnapshot => exact ⟨unchanged rfl rfl, fun _ _ => rfl⟩

/-- A candidate's candidacy is on record. -/
theorem candidates_of_effect (voting : Voting s) (effect : Effect m s a o)
    (candidate : o.raft.state = .candidate) :
    .candidacy o.node o.raft.currentTerm ∈ o.events ∨
      .candidacy o.node o.raft.currentTerm ∈ s.history := by
  cases turn_of_effect effect with
  | keeps keeps =>
      obtain ⟨sameTerm, sameState⟩ := keeps.of_ne_follower (by simp [candidate])
      rw [sameState] at candidate
      rw [sameTerm]
      exact .inr (voting.candidates candidate)
  | stands _ _ raft events =>
      left
      rw [events]
      rcases raft with raft | raft
      · simp [raft, Raft.enterCandidate]
      · simp [raft, Raft.enterCandidate, Raft.saved]
  | leads _ _ raft =>
      rw [raft] at candidate
      cases candidate
  | restarts _ raft =>
      rw [raft, Raft.restart_state] at candidate
      cases candidate

theorem requests_of_effect (fits : m.Fits) (static : Static m threshold s)
    (voting : Voting s) (effect : Effect m s a o) {src dst : Int} {req : RequestVoteRequest}
    (sent : .requestVote src dst req ∈ o.packets) : req.candidateId = src := by
  cases effect with
  | duplicate inNet =>
      cases List.mem_singleton.mp sent
      exact voting.requests inNet
  | sendRequestVote pending =>
      cases List.mem_singleton.mp sent
      have member := (static.tasks _ pending).1
      simp only [Raft.requestVoteRequest, static.serverId]
      exact int32_of_fits (m.nonneg _ member) (fits _ member)
  | install _ _ _ replies =>
      obtain ⟨_, impossible⟩ := replies _ sent
      cases impossible
  | _ => simp at sent

theorem replies_of_effect (voting : Voting s) (effect : Effect m s a o) {src dst : Int}
    {term : Nat} {resp : RequestVoteResponse}
    (sent : .requestVoteReply src dst term resp ∈ o.packets)
    (granted : resp.voteGranted = true) :
    ∃ req, (.granted dst term req ∈ o.events ∨ .granted dst term req ∈ s.history) ∧
      req.candidateId = src := by
  cases effect with
  | duplicate inNet =>
      cases List.mem_singleton.mp sent
      obtain ⟨req, member, candidate⟩ := voting.replies inNet granted
      exact ⟨req, .inr member, candidate⟩
  | refuseVote _ _ refused =>
      cases List.mem_singleton.mp sent
      rw [refused] at granted
      cases granted
  | grantVote inNet =>
      cases List.mem_singleton.mp sent
      exact ⟨_, .inl (List.mem_singleton_self _), voting.requests inNet⟩
  | install _ _ _ replies =>
      obtain ⟨_, impossible⟩ := replies _ sent
      cases impossible
  | _ => simp at sent

theorem counted_of_effect (voting : Voting s) (effect : Effect m s a o) {i q : Int}
    {term : Nat} (recorded : .counted i q term ∈ o.events) :
    ∃ req, .granted q term req ∈ s.history ∧ req.candidateId = i := by
  cases effect with
  | countVote inNet _ _ granted =>
      cases List.mem_singleton.mp recorded
      exact voting.replies inNet granted
  | _ => simp at recorded

/-- Votes stay in order in every step that forgets none. -/
theorem step (fits : m.Fits) (static : Static m threshold s) (voting : Voting s)
    (remembers : ∀ i, a = .restart i → s.Remembers i) (stepped : s.step m a = some s') :
    Voting s' := by
  obtain ⟨o, effect, applies⟩ := effect_of_step stepped
  have recorded : ∀ {i}, s'.votes i = o.events.filterMap (Event.vote i) ++ s.votes i := by
    intro i
    rw [votes, applies.history, List.filterMap_append, ← votes]
  obtain ⟨acting, others⟩ := voting.oneVote_of_effect static remembers effect
  refine ⟨fun i => ?_, fun inNet => ?_, fun inNet granted => ?_, fun member => ?_,
    fun member => ?_, fun {i} candidate => ?_⟩
  · rw [recorded]
    by_cases acts : i = o.node
    · rw [acts, applies.node_self]
      exact acting
    · rw [applies.node_of_ne acts, others i acts]
      exact voting.oneVote i
  · rcases applies.mem_net inNet with new | old
    · exact voting.requests_of_effect fits static effect new
    · exact voting.requests old
  · rcases applies.mem_net inNet with new | old
    · obtain ⟨req, member, candidate⟩ := voting.replies_of_effect effect new granted
      exact ⟨req, applies.mem_history.mpr member, candidate⟩
    · obtain ⟨req, member, candidate⟩ := voting.replies old granted
      exact ⟨req, applies.history_mono member, candidate⟩
  · rcases applies.mem_history.mp member with new | old
    · obtain ⟨req, member, candidate⟩ := voting.counted_of_effect effect new
      exact ⟨req, applies.history_mono member, candidate⟩
    · obtain ⟨req, member, candidate⟩ := voting.counted old
      exact ⟨req, applies.history_mono member, candidate⟩
  · rcases applies.mem_history.mp member with new | old
    · obtain ⟨rfl, rfl, -, candidate, -⟩ := promoted_of_effect effect new
      exact applies.history_mono (voting.candidates candidate)
    · exact applies.history_mono (voting.promoted old)
  · by_cases acts : i = o.node
    · subst acts
      rw [applies.node_self] at candidate ⊢
      exact applies.mem_history.mpr (voting.candidates_of_effect effect candidate)
    · rw [applies.node_of_ne acts] at candidate ⊢
      exact applies.history_mono (voting.candidates candidate)

/-- Two majorities of votes counted in one term are for the same node. -/
theorem same_candidate (voting : Voting s) {i j : Int} {term : Nat}
    (stood : .candidacy i term ∈ s.history) (stood' : .candidacy j term ∈ s.history)
    (majority : Majority (population m) (s.voters i term))
    (majority' : Majority (population m) (s.voters j term)) : i = j := by
  -- everyone in the majority of a candidate gave it a vote
  have gave : ∀ {c q}, .candidacy c term ∈ s.history → q ∈ s.voters c term →
      (term, c) ∈ s.votes q := by
    intro c q stood member
    rcases mem_voters.mp member with rfl | counted
    · exact mem_votes.mpr (.inl ⟨stood, rfl⟩)
    · exact mem_votes.mpr (.inr (voting.counted counted))
  obtain ⟨q, inFirst, inSecond⟩ := majority.exists_mem_inter majority'
  exact (voting.oneVote q).unique (gave stood inFirst) (gave stood' inSecond)

end Voting

end Cluster

end DistribKV
