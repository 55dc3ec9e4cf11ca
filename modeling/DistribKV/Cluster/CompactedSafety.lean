import DistribKV.Cluster.WholeLogs

/-!
# Commitment with compacted logs

Nodes fold applied entries into snapshots whenever their server asks for it, and send
snapshots to peers whose next entry they no longer have.  Commitment stays safe in runs
without crashes whose promotions are backed by a majority, under two conditions that the
code does not ensure: a node that has folded all of its log is asked for its vote only by
candidates that are as up to date as its snapshot, since it would compare an empty log,
and no snapshot contradicts the log of the node that receives it, since that node would
answer as if it had installed it.

The entries a snapshot stands for are committed, but they may be of a later term than
the request that carries them.  A node that installs such a snapshot is *ahead* of its
term.  It cannot become leader before it has caught up, because a majority has already
promised the later term.
-/

namespace DistribKV

open Consensus

namespace Cluster

variable {m : Membership} {threshold : Int} {s s' : Cluster} {a : Action} {o : Outcome}
variable {ack : Int → Nat → Nat}

/-! ## Conditions -/

/-- A node that has folded all of its log is asked for its vote only by candidates whose
log is as up to date as its snapshot. -/
@[reducible] def VotesUpToDate (s : Cluster) : Action → Prop
  | .receive (.requestVote _ dst req) _ => (s.node dst).log = [] →
      UpTo ((s.node dst).snapshotTerm, (s.node dst).snapshotIndex) (claimed req)
  | _ => True

/-- A snapshot that a node has not yet committed does not contradict its log. -/
@[reducible] def SnapshotsFit (s : Cluster) : Action → Prop
  | .receive (.installSnapshot _ dst req _) _ =>
      (s.node dst).commitIndex < req.lastIncludedIndex → (s.node dst).contradicts req = false
  | _ => True

instance (s : Cluster) : DecidablePred s.VotesUpToDate := Action.decidable _

instance (s : Cluster) : DecidablePred s.SnapshotsFit := Action.decidable _

/-- No crashes, promotions by majority, votes for candidates that are up to date, and
snapshots that fit. -/
def Tidy (m : Membership) (s : Cluster) (a : Action) : Prop :=
  s.Orderly m a ∧ s.VotesUpToDate a ∧ s.SnapshotsFit a

instance (m : Membership) (s : Cluster) (a : Action) : Decidable (s.Tidy m a) :=
  inferInstanceAs (Decidable (_ ∧ _))

/-! ## The register of whole logs -/

/-- The register of a cluster whose nodes rely on their memory.  What they have
acknowledged is given beside the state. -/
def wholeRegister (s : Cluster) (ack : Int → Nat → Nat) : Register Int LogEntry where
  toLedger := s.ledger
  promise i := (s.node i).currentTerm
  ack := ack
  log := s.whole
  stable := s.whole
  ballots ballot := ∃ req, .granted ballot.voter ballot.term req ∈ s.history ∧
    UpTo (claimed req) ballot.claimed

/-- What a node takes to be committed is settled.  It is settled up to the term of the
node, unless the node is ahead of its term: then it is no leader, and has committed
only what its snapshot stands for. -/
structure Covered (m : Membership) (R : Register Int LogEntry) (r : Raft)
    (folded : List LogEntry) : Prop where
  reached : r.commitIndex ≤ (folded ++ r.log).length
  settled : R.SettledBy LogEntry.term (population m) r.currentTerm
      ((folded ++ r.log).take r.commitIndex) ∨
    r.state ≠ .leader ∧ r.commitIndex = r.logBase ∧ R.Settled LogEntry.term (population m) folded

/-- The first `n` entries of the book of a led term are settled up to that term. -/
structure Vouched (m : Membership) (R : Register Int LogEntry) (term n : Nat) : Prop where
  led : (R.leader term).isSome
  reached : n ≤ (R.book term).length
  settled : R.SettledBy LogEntry.term (population m) term ((R.book term).take n)

section Covered

variable {R S : Register Int LogEntry} {r : Raft} {folded : List LogEntry}

theorem Covered.evolve (covered : Covered m R r folded) (evolution : R.Evolves S) :
    Covered m S r folded :=
  ⟨covered.reached, covered.settled.imp (·.evolve evolution)
    fun ahead => ⟨ahead.1, ahead.2.1, ahead.2.2.evolve evolution⟩⟩

theorem Covered.take_settled (covered : Covered m R r folded)
    (based : folded.length = r.logBase) :
    R.Settled LogEntry.term (population m) ((folded ++ r.log).take r.commitIndex) := by
  rcases covered.settled with settled | ⟨-, commitIndex, settled⟩
  · exact ⟨_, settled⟩
  · rwa [commitIndex, ← based, List.take_left]

/-- A settled log that is no longer than what the node has committed is in its log. -/
theorem Covered.holds (covered : Covered m R r folded) (based : folded.length = r.logBase)
    (safe : R.Safe LogEntry.term (population m)) {log : List LogEntry}
    (settled : R.Settled LogEntry.term (population m) log) (le : log.length ≤ r.commitIndex) :
    log <+: folded ++ r.log := by
  refine (settled.isPrefix (covered.take_settled based) safe ?_).trans (List.take_prefix _ _)
  rwa [List.length_take_of_le covered.reached]

theorem take_of_isPrefix {log log' : List LogEntry} (isPrefix : log <+: log') {n : Nat}
    (le : n ≤ log.length) : log'.take n = log.take n := by
  obtain ⟨rest, rfl⟩ := isPrefix
  exact List.take_append_of_le_length le

theorem Vouched.evolve {term n : Nat} (vouched : Vouched m R term n) (evolution : R.Evolves S) :
    Vouched m S term n := by
  have grows := evolution.ledger.book term vouched.led
  refine ⟨evolution.ledger.led vouched.led, vouched.reached.trans grows.length_le, ?_⟩
  rw [take_of_isPrefix grows vouched.reached]
  exact vouched.settled.evolve evolution

end Covered

/-- A majority has passed the term in which `i` stands without having voted for it. -/
def Outvoted (m : Membership) (s : Cluster) (i : Int) : Prop :=
  ∃ quorum, Majority (population m) quorum ∧ ∀ q ∈ quorum,
    (s.node i).currentTerm < (s.node q).currentTerm ∧
      ∀ req, .granted q (s.node i).currentTerm req ∈ s.history → req.candidateId ≠ i

/-! ## The invariants -/

/-- Logs, votes and the register. -/
structure Founded (m : Membership) (threshold : Int) (s : Cluster) (ack : Int → Nat → Nat) :
    Prop where
  fits : m.Fits
  matched : Matched m threshold s
  voting : Voting s
  standing : Standing s
  tracked : Tracked s
  bounded : ∀ i, ∀ entry ∈ (s.node i).log, entry.term ≤ (s.node i).currentTerm
  safe : (s.wholeRegister ack).Safe LogEntry.term (population m)
  leaders : ∀ i term, s.ledger.leader term = some i → Majority (population m) (s.voters i term)

/-- What leaders have counted was acknowledged. -/
structure Counted (s : Cluster) (ack : Int → Nat → Nat) : Prop where
  appended : ∀ {src dst req resp}, .appendEntriesReply src dst req resp ∈ s.net →
    resp.success = true →
      req.prevLogIndex + req.entries.length ≤ ack dst req.term
  installed : ∀ {src dst req resp}, .installSnapshotReply src dst req resp ∈ s.net →
    resp.term ≤ req.term → s.Leads src req.term → req.lastIncludedIndex ≤ ack dst req.term
  matched : ∀ i, (s.node i).state = .leader → ∀ p ∈ (s.node i).peers,
    p.matchIndex ≤ ack p.id (s.node i).currentTerm
  own : ∀ i, (s.node i).state = .leader → (s.whole i).length ≤ ack i (s.node i).currentTerm

/-- What nodes, tasks and messages say about commitment. -/
structure Settling (m : Membership) (s : Cluster) (ack : Int → Nat → Nat) : Prop where
  nodes : ∀ i, Covered m (s.wholeRegister ack) (s.node i) (s.folded i)
  candidates : ∀ i, (s.node i).state = .candidate →
    s.ledger.leader (s.node i).currentTerm = none →
      (s.wholeRegister ack).SettledBy LogEntry.term (population m) (s.node i).currentTerm
        ((s.whole i).take (s.node i).commitIndex) ∨ s.Outvoted m i
  tasks : ∀ {i peer term n}, .sendAppendEntries i peer term n ∈ s.tasks →
    Vouched m (s.wholeRegister ack) term n
  requests : ∀ {src dst req}, .appendEntries src dst req ∈ s.net →
    Vouched m (s.wholeRegister ack) req.term req.leaderCommit
  replies : ∀ {src dst req resp}, .appendEntriesReply src dst req resp ∈ s.net →
    Vouched m (s.wholeRegister ack) req.term req.leaderCommit
  snapshots : ∀ {src dst req covered}, .installSnapshot src dst req covered ∈ s.net →
    (s.wholeRegister ack).Settled LogEntry.term (population m) covered

theorem Founded.initial (fits : m.Fits) (threshold : Int) :
    Founded m threshold (init m threshold) fun _ _ => 0 where
  fits := fits
  matched := .initial m threshold
  voting := .initial m threshold
  standing := .initial m threshold
  tracked := .initial m threshold
  bounded _ := by simp [init, Raft.newRaft, Raft.fresh, Raft.start, Raft.loadPersistedState]
  safe :=
    { sound := .empty
      bounded := fun _ _ member => by cases member
      ack_le := fun _ _ => le_rfl
      elected := fun _ led => by cases led
      books := fun _ _ _ _ led => by cases led
      logs := fun _ _ _ binding => by cases binding.1.1
      stables := fun _ _ _ binding => by cases binding.1.1
      promised := fun _ _ _ binding => by cases binding.1.1
      ballots := fun _ ⟨_, cast, _⟩ => by cases cast }
  leaders _ _ led := by cases led

namespace Founded

variable (founded : Founded m threshold s ack)
include founded

/-- A candidate with a majority is not ahead of its term. -/
theorem settled_of_majority (settling : Settling m s ack)
    {i : Int} (candidate : (s.node i).state = .candidate)
    (vacant : s.ledger.leader (s.node i).currentTerm = none)
    (majority : Majority (population m) (s.voters i (s.node i).currentTerm)) :
    (s.wholeRegister ack).SettledBy LogEntry.term (population m) (s.node i).currentTerm
      ((s.whole i).take (s.node i).commitIndex) := by
  rcases settling.candidates i candidate vacant with settled | ⟨quorum, passed, past⟩
  · exact settled
  obtain ⟨q, voted, inQuorum⟩ := majority.exists_mem_inter passed
  obtain ⟨later, unpromised⟩ := past q inQuorum
  rcases mem_voters.mp voted with rfl | counted
  · exact absurd later (lt_irrefl _)
  · obtain ⟨req, granted, isCandidate⟩ := founded.voting.counted counted
    exact absurd isCandidate (unpromised req granted)

/-- A candidate with a majority holds entries of earlier terms only. -/
theorem earlier {i : Int}
    (vacant : s.ledger.leader (s.node i).currentTerm = none)
    (settled : (s.wholeRegister ack).SettledBy LogEntry.term (population m)
      (s.node i).currentTerm ((s.whole i).take (s.node i).commitIndex)) :
    ∀ entry ∈ s.whole i, entry.term < (s.node i).currentTerm := by
  intro entry member
  obtain ⟨-, shaped, matching⟩ := founded.matched
  refine lt_of_le_of_ne ?_ fun same => ?_
  · rcases List.mem_append.mp member with folded | retained
    · refine settled.term_le founded.safe (List.IsPrefix.subset ?_ folded)
      refine List.prefix_take_iff.mpr ⟨List.prefix_append _ _, ?_⟩
      rw [shaped.based i]
      exact shaped.committed i
    · exact founded.bounded i entry retained
  · obtain ⟨before, after, split⟩ := List.append_of_mem member
    have rooted := matching.rooted i
    rw [split] at rooted
    have led := (rooted before entry ⟨after, by simp⟩).1
    rw [same, vacant] at led
    cases led

/-- The members behind a candidate have promised its term and voted for a log that ends
where its own does, or before. -/
theorem voted {i q : Int}
    (candidate : (s.node i).state = .candidate)
    (vacant : s.ledger.leader (s.node i).currentTerm = none)
    (member : q ∈ s.voters i (s.node i).currentTerm) :
    (s.node i).currentTerm ≤ (s.wholeRegister ack).promise q ∧
      (q = i ∨ (s.wholeRegister ack).ballots
        ⟨q, (s.node i).currentTerm, endOf LogEntry.term (s.whole i)⟩) := by
  rcases mem_voters.mp member with rfl | counted
  · exact ⟨le_rfl, .inl rfl⟩
  · obtain ⟨req, granted, rfl⟩ := founded.voting.counted counted
    obtain ⟨term, -, supports⟩ := founded.standing.granted granted
    have cast : (s.wholeRegister ack).ballots ⟨q, (s.node req.candidateId).currentTerm,
        endOf LogEntry.term (s.whole req.candidateId)⟩ :=
      ⟨req, granted, supports candidate term (term ▸ vacant)⟩
    exact ⟨(founded.safe.ballots _ cast).1, .inr cast⟩

end Founded

/-! ## One step -/

/-- The register of `s` with the ledger after a step with the given outcome. -/
def atLedger (s : Cluster) (ack : Int → Nat → Nat) (o : Outcome) : Register Int LogEntry :=
  { s.wholeRegister ack with toLedger := ledgerOf (o.events ++ s.history) }

/-- Acknowledgements after a step: the acting node has acknowledged all it shares with
the book of its term. -/
def ackAfter (s' : Cluster) (ack : Int → Nat → Nat) (o : Outcome) : Int → Nat → Nat :=
  ((s'.wholeRegister ack).confirm o.node o.raft.currentTerm).ack

/-- What the acting node shares with the book of its term it has acknowledged. -/
theorem length_le_ack {common : List LogEntry} (inLog : common <+: s'.whole o.node)
    (inBook : common <+: s'.ledger.book o.raft.currentTerm) :
    common.length ≤ ackAfter s' ack o o.node o.raft.currentTerm :=
  Register.length_le_confirm_ack inLog inBook

/-- A step of a tidy run between states of which the first satisfies the invariants. -/
structure Proceeds (m : Membership) (threshold : Int) (ack : Int → Nat → Nat) (s : Cluster)
    (a : Action) (o : Outcome) (s' : Cluster) : Prop where
  founded : Founded m threshold s ack
  settling : Settling m s ack
  tidy : s.Tidy m a
  stepped : s.step m a = some s'
  effect : Effect m s a o
  applies : Applies s o s'

namespace Proceeds

variable (proceeds : Proceeds m threshold ack s a o s')
include proceeds

/-! ## Logs and votes -/

theorem running (i : Int) : a ≠ .restart i := proceeds.tidy.1.running i

theorem turn : WholeTurn s a o :=
  wholeTurn_of_effect proceeds.founded.matched proceeds.effect proceeds.running

theorem move : CommitMove s o :=
  commitMove_of_effect proceeds.founded.matched proceeds.effect proceeds.running

/-- A promotion is in a term nobody leads. -/
theorem vacant {term : Nat} {log : List LogEntry}
    (recorded : .promoted o.node term log ∈ o.events) : s.ledger.leader term = none := by
  obtain ⟨founded, -, tidy, -, effect, -⟩ := proceeds
  obtain ⟨-, rfl, -, candidate, -, _, acts, -⟩ := promoted_of_effect effect recorded
  by_contra led
  obtain ⟨j, leader⟩ := Option.ne_none_iff_exists'.mp led
  obtain ⟨log', member⟩ := mem_promotions_of_leader leader
  subst acts
  have same : o.node = j :=
    founded.voting.same_candidate (founded.voting.candidates candidate)
      (founded.voting.promoted member) (tidy.1.2 candidate) (founded.leaders j _ leader)
  exact (founded.matched.matching.led o.node _ (same ▸ leader)).2 rfl candidate

theorem matched' : Matched m threshold s' := by
  obtain ⟨static, shaped, matching⟩ := proceeds.founded.matched
  exact ⟨static.step proceeds.stepped,
    shaped.step (fun i restart => absurd restart (proceeds.running i)) proceeds.stepped,
    matching.of_effect static shaped proceeds.effect proceeds.applies
      (fun _ _ recorded => proceeds.vacant recorded)
      fun i restart => absurd restart (proceeds.running i)⟩

theorem advance : Advance m threshold s a o s' where
  before := proceeds.founded.matched
  after := proceeds.matched'
  effect := proceeds.effect
  applies := proceeds.applies
  vacant _ _ recorded := proceeds.vacant recorded
  running := proceeds.running

/-- A snapshot is discarded only by a node that has the entries it stands for. -/
theorem discardsHeld : s.DiscardsHeld a := by
  obtain ⟨founded, settling, tidy, stepped, -, -⟩ := proceeds
  cases a with
  | receive packet disk =>
      cases packet with
      | installSnapshot src dst req covered =>
          rintro - ⟨-, -, useless⟩
          simp only [step] at stepped
          split at stepped
          next inNet =>
            have shaped := founded.matched.shaped
            obtain ⟨-, length, -⟩ := shaped.snapshots inNet
            refine (settling.nodes dst).holds (shaped.based dst) founded.safe
              (settling.snapshots inNet) ?_
            rw [length]
            by_contra ahead
            rcases useless with le | contradicts
            · exact ahead le
            · rw [tidy.2.2 (Nat.not_le.mp ahead)] at contradicts
              cases contradicts
          · cases stepped
      | _ => trivial
  | _ => trivial

theorem tracked' : Tracked s' :=
  proceeds.founded.tracked.step proceeds.advance proceeds.discardsHeld proceeds.stepped

theorem voting' : Voting s' :=
  proceeds.founded.voting.step proceeds.founded.fits proceeds.founded.matched.static
    (fun i restart => absurd restart (proceeds.running i)) proceeds.stepped

theorem standing' : Standing s' :=
  proceeds.founded.standing.of_effect proceeds.turn proceeds.move
    proceeds.founded.matched.shaped proceeds.founded.matched.matching proceeds.founded.voting
    proceeds.effect proceeds.applies proceeds.advance.extension

/-- No retained entry is of a later term than the node that holds it. -/
theorem bounded' (i : Int) : ∀ entry ∈ (s'.node i).log, entry.term ≤ (s'.node i).currentTerm := by
  have le := proceeds.advance.term_le i
  have founded := proceeds.founded
  by_cases acts : i = o.node
  case neg =>
    rw [proceeds.applies.node_of_ne acts]
    exact founded.bounded i
  subst acts
  rw [proceeds.applies.node_self] at le ⊢
  have old : ∀ entry ∈ (s.node o.node).log, entry.term ≤ o.raft.currentTerm :=
    fun entry held => (founded.bounded o.node entry held).trans le
  intro entry member
  cases proceeds.turn with
  | keeps _ _ retained => exact old entry (retained entry member)
  | elects _ raft => exact old entry (by simpa [raft, Raft.enterLeader] using member)
  | writes _ term log _ sameTerm =>
      rw [log] at member
      rcases List.mem_append.mp member with held | new
      · exact old entry held
      · rw [List.mem_singleton.mp new, term, sameTerm]
  | @merges src req _ _ sameTerm folded _ whole =>
      rcases merge_eq_or (s.whole o.node) ((s.ledger.book req.term).take
        (req.prevLogIndex + req.entries.length)) with kept | replaced
      · rw [kept, folded] at whole
        exact old entry (List.append_cancel_left whole ▸ member)
      · rw [replaced] at whole
        have inBook := List.mem_of_mem_take (whole ▸ List.mem_append_right o.folded member)
        rw [sameTerm]
        exact founded.safe.bounded _ entry inBook
  | installs _ _ _ _ _ _ retained => exact old entry (retained entry member)

/-! ## The register -/

/-- The register stays safe when only the ledger follows the step. -/
theorem safe_ledger : (atLedger s ack o).Safe LogEntry.term (population m) := by
  have founded := proceeds.founded
  have safe := founded.safe
  unfold atLedger
  cases proceeds.turn with
  | keeps _ _ _ ledger => exact ledger ▸ safe
  | merges _ _ _ _ _ _ _ ledger => exact ledger ▸ safe
  | installs _ _ _ _ _ _ _ _ ledger => exact ledger ▸ safe
  | writes leads term _ _ _ ledger =>
      rw [ledger]
      refine safe.write ?_ rfl
      rw [term]
      exact Option.isSome_iff_exists.mpr ⟨_, (founded.matched.matching.leading _ leads).1⟩
  | elects candidate _ _ action recorded ledger =>
      obtain ⟨_, rfl⟩ := action
      have majority := proceeds.tidy.1.2 candidate
      have vacant := proceeds.vacant recorded
      have settled := founded.settled_of_majority proceeds.settling candidate vacant majority
      rw [ledger]
      exact safe.elect vacant (founded.matched.matching.rooted o.node)
        (founded.earlier vacant settled) majority
        fun q member => founded.voted candidate vacant member

/-- The acting node loses nothing of a book of its past that is not dead. -/
theorem keeps_part {t : Nat} {part : List LogEntry} (le : t ≤ (s.node o.node).currentTerm)
    (own : (atLedger s ack o).OwnPart LogEntry.term t part)
    (held : part <+: s.whole o.node ∨
      (atLedger s ack o).Dead (population m) t part.length) :
    part <+: o.folded ++ o.raft.log ∨
      (atLedger s ack o).Dead (population m) t part.length := by
  have founded := proceeds.founded
  have same : ledgerOf (o.events ++ s.history) = s.ledger →
      atLedger s ack o = s.wholeRegister ack := by
    intro ledger
    rw [atLedger, ledger]
    rfl
  cases proceeds.turn with
  | keeps whole => exact whole ▸ held
  | elects _ raft folded =>
      rw [raft, folded]
      exact held
  | writes _ _ log folded =>
      rw [log, folded, ← List.append_assoc]
      exact held.imp_left fun inLog => inLog.trans (List.prefix_append _ _)
  | merges inNet current _ _ _ whole _ ledger =>
      obtain ⟨led, -⟩ := founded.matched.matching.requests inNet
      rw [whole]
      rw [same ledger] at own held ⊢
      exact founded.safe.part_merge own (le.trans current) led (List.take_prefix _ _) held
  | installs inNet _ _ _ _ whole _ _ ledger =>
      rw [whole]
      rw [same ledger] at own held ⊢
      exact (proceeds.settling.snapshots inNet).part_merge founded.safe own held

/-- A vote of the step promises its term, to a candidate that claims as much as the
voter has. -/
theorem ballot_of_effect {q : Int} {term : Nat} {req : RequestVoteRequest}
    (recorded : .granted q term req ∈ o.events) :
    q = o.node ∧ o.raft.currentTerm = term ∧ (s.node q).currentTerm ≤ term ∧
      ledgerOf (o.events ++ s.history) = s.ledger ∧
      UpTo (endOf LogEntry.term (s.whole q)) (claimed req) := by
  obtain ⟨founded, -, tidy, -, effect, -⟩ := proceeds
  cases effect with
  | @grantVote src dst req disk r inNet grants =>
      cases List.mem_singleton.mp recorded
      refine ⟨rfl, ?_, grants.current, rfl, ?_⟩
      · rw [grants.result]
        simp [Raft.resetElectionTimerLocked, Raft.saved, grants.current]
      · have upToDate := grants.upToDate
        simp only [Raft.logOk, Bool.or_eq_true, Bool.and_eq_true, decide_eq_true_eq] at upToDate
        by_cases empty : (s.node q).log = []
        · exact (endOf_folded founded.matched.shaped empty).trans (tidy.2.1 empty)
        · rw [endOf_whole founded.matched.shaped empty]
          simp only [UpTo, claimed]
          omega
  | _ => simp at recorded

/-- The register stays safe when everything but acknowledgements follows the step. -/
theorem safe_nodes : (s'.wholeRegister ack).Safe LogEntry.term (population m) := by
  have safe := proceeds.safe_ledger
  have applies := proceeds.applies
  have logs : ∀ q t part, (atLedger s ack o).Binding LogEntry.term q t part →
      part <+: s'.whole q ∨ (atLedger s ack o).Dead (population m) t part.length := by
    intro q t part binding
    by_cases acts : q = o.node
    · subst acts
      rw [applies.whole_self]
      exact proceeds.keeps_part (safe.promised _ t part binding) binding.1
        (safe.logs _ t part binding)
    · rw [applies.whole_of_ne acts]
      exact safe.logs q t part binding
  refine safe.replace (ledger_of_applies applies) rfl proceeds.advance.term_le logs logs
    fun ballot cast => ?_
  obtain ⟨req, granted, claims⟩ := cast
  rcases applies.mem_history.mp granted with new | old
  · obtain ⟨voter, promised, -, same, upToDate⟩ := proceeds.ballot_of_effect new
    have rooted := proceeds.founded.matched.matching.rooted ballot.voter
    rw [← same] at rooted
    refine .inr ⟨?_, rooted, upToDate.trans claims⟩
    simp only [wholeRegister, voter, applies.node_self, promised, le_refl]
  · exact .inl ⟨req, old, claims⟩

theorem promise_self : (s'.wholeRegister ack).promise o.node = o.raft.currentTerm := by
  simp only [wholeRegister, proceeds.applies.node_self]

theorem safe' : (s'.wholeRegister (ackAfter s' ack o)).Safe LogEntry.term (population m) :=
  proceeds.safe_nodes.confirm proceeds.promise_self rfl

theorem evolution :
    (s.wholeRegister ack).Evolves (s'.wholeRegister (ackAfter s' ack o)) := by
  have moved : (s.wholeRegister ack).Evolves (s'.wholeRegister ack) :=
    ⟨proceeds.advance.extension, proceeds.advance.term_le, fun _ _ => le_rfl, fun _ _ _ => rfl⟩
  exact moved.trans (Register.evolves_confirm proceeds.promise_self)

theorem ack_le (q : Int) (term : Nat) : ack q term ≤ ackAfter s' ack o q term :=
  proceeds.evolution.ack q term

theorem founded' : Founded m threshold s' (ackAfter s' ack o) where
  fits := proceeds.founded.fits
  matched := proceeds.matched'
  voting := proceeds.voting'
  standing := proceeds.standing'
  tracked := proceeds.tracked'
  bounded := proceeds.bounded'
  safe := proceeds.safe'
  leaders i term led := by
    have majority : Majority (population m) (s.voters i term) := by
      rw [ledger_of_applies proceeds.applies] at led
      by_cases old : s.ledger.leader term = some i
      · exact proceeds.founded.leaders i term old
      cases proceeds.turn with
      | keeps _ _ _ ledger => exact absurd (ledger ▸ led) old
      | merges _ _ _ _ _ _ _ ledger => exact absurd (ledger ▸ led) old
      | installs _ _ _ _ _ _ _ _ ledger => exact absurd (ledger ▸ led) old
      | writes _ _ _ _ _ ledger => exact absurd (by rwa [ledger] at led) old
      | elects candidate _ _ action _ ledger =>
          obtain ⟨_, rfl⟩ := action
          rw [ledger] at led
          by_cases here : term = (s.node o.node).currentTerm
          · subst here
            rw [Ledger.elect_leader_self] at led
            cases led
            exact proceeds.tidy.1.2 candidate
          · rw [Ledger.elect_leader_of_ne _ here] at led
            exact absurd led old
    have member := majority.1 (mem_voters.mpr (.inl rfl))
    rw [population, List.mem_toFinset] at member
    exact majority.mono (voters_mono proceeds.applies i term)
      (proceeds.matched'.static.voters_subset member term)

end Proceeds

end Cluster

end DistribKV
