import DistribKV.Cluster.Register

/-!
# Steps that keep commitment safe

A step is admissible under a view when promotions are backed by a majority that
can be relied on, replies confirm only what can be relied on, and restarts lose
nothing of it.  Admissible steps keep the register of the cluster safe; each of
them is one operation on the abstract register, or two when it both changes a
log and acknowledges it.
-/

namespace DistribKV

namespace Cluster

open Consensus

/-- Node `j`, in a term that the disk of node `i` has reached, holds the stored log of
node `i` and takes it to be committed. -/
def Vouches (s : Cluster) (i j : Int) : Prop :=
  (s.node j).currentTerm ≤ (s.node i).persister.term ∧
    (s.node i).persister.log <+: (s.node j).log ∧
    (s.node i).persister.log.length ≤ (s.node j).commitIndex

instance (s : Cluster) (i j : Int) : Decidable (s.Vouches i j) :=
  inferInstanceAs (Decidable (_ ∧ _ ∧ _))

/-- What node `i` must find on its disk when it restarts. -/
structure Resumes (view : View) (s : Cluster) (i : Int) : Prop where
  remembers : s.Remembers i
  promise : view.promise (s.node i) ≤ view.promise (s.node i).restart
  stable : view.stable (s.node i) = (s.node i).persister.log
  stableAfter : view.stable (s.node i).restart = (s.node i).persister.log
  commit : (s.node i).persister.log = [] ∨
    (s.node i).persister.term = (s.node i).currentTerm ∧
      ((s.node i).persister.log.length ≤ (s.node i).commitIndex ∨ ∃ j, s.Vouches i j)

/-- The assumptions on a step. -/
structure Admissible (m : Membership) (view : View) (s : Cluster) (a : Action) : Prop where
  promotes : ∀ i term, a = .becomeLeader i term → (s.node i).state = .candidate →
    Majority (population m) (s.voters i (s.node i).currentTerm) ∧
      view.promise (s.node i) = (s.node i).currentTerm
  appends : ∀ src dst req disk r resp, a = .receive (.appendEntries src dst req) disk →
    (s.node dst).appendEntries req disk = some (r, .ok resp) → resp.success = true →
      r.log.take (req.prevLogIndex + req.entries.length) <+: view.stable r
  restarts : ∀ i, a = .restart i → Resumes view s i

/-- The invariants behind commitment. -/
structure Safety (m : Membership) (view : View) (s : Cluster) : Prop where
  fits : m.Fits
  static : Static m 0 s
  voting : Voting s
  shaped : Shaped s
  matching : Matching s
  flat : Flat s
  campaigning : Campaigning s
  stored : ∀ i, Stored s.ledger (s.node i)
  bounded : ∀ i, ∀ entry ∈ (s.node i).log, entry.term ≤ (s.node i).currentTerm
  safe : (view.register s).Safe LogEntry.term (population m)
  leaders : ∀ i term, s.ledger.leader term = some i →
    term ≤ view.promise (s.node i) ∧ Majority (population m) (s.voters i term)
  promoted : ∀ {i term log}, .promoted i term log ∈ s.history →
    s.ledger.leader term = some i

namespace Safety

variable {m : Membership} {view : View} {s s' : Cluster} {a : Action} {o : Outcome}

theorem initial (fits : m.Fits) (view : View) : Safety m view (init m 0) where
  fits := fits
  static := .initial m 0
  voting := .initial m 0
  shaped := .initial m 0
  matching := .initial m 0
  flat := .initial m
  campaigning := .initial m 0
  stored _ := ⟨le_rfl, .nil, .nil, by simp [init, Raft.newRaft, Raft.fresh, Raft.start,
    Raft.loadPersistedState, Persister.log]⟩
  bounded _ := by simp [init, Raft.newRaft, Raft.fresh, Raft.start, Raft.loadPersistedState]
  safe :=
    { sound := .empty
      bounded := fun _ _ member => by cases member
      ack_le := fun _ _ => le_rfl
      elected := fun _ led => by cases led
      books := fun _ _ _ _ led => by cases led
      logs := fun _ _ _ binding => by cases binding.1.1
      stables := fun _ _ _ binding => by cases binding.1.1
      promised := fun _ _ _ binding => by cases binding.1.1
      ballots := fun _ ⟨_, cast, _⟩ => by cases cast }
  leaders _ _ led := by cases led
  promoted member := by simp [init] at member

/-- The register of `s` with the ledger after a step with the given outcome. -/
def atLedger (view : View) (s : Cluster) (o : Outcome) : Register Int LogEntry :=
  { view.register s with toLedger := ledgerOf (o.events ++ s.history) }

variable (safety : Safety m view s)
include safety

/-- A promotion is in a term nobody leads. -/
theorem vacant (admissible : Admissible m view s a) (effect : Effect m s a o) {term : Nat}
    {log : List LogEntry} (recorded : .promoted o.node term log ∈ o.events) :
    s.ledger.leader term = none := by
  obtain ⟨-, rfl, -, candidate, -, _, acts, -⟩ := promoted_of_effect effect recorded
  by_contra led
  obtain ⟨j, leader⟩ := Option.ne_none_iff_exists'.mp led
  obtain ⟨log', member⟩ := mem_promotions_of_leader leader
  -- two majorities of one term elect the same node, which is past standing in it
  have same : o.node = j :=
    safety.voting.same_candidate (safety.voting.candidates candidate)
      (safety.voting.promoted member) (admissible.promotes _ _ acts candidate).1
      (safety.leaders j _ leader).2
  exact (safety.matching.led o.node _ (same ▸ leader)).2 rfl candidate

theorem restartable (admissible : Admissible m view s a) (i : Int)
    (restart : a = .restart i) : s.Restartable i := by
  have resumes := admissible.restarts i restart
  have stored := safety.stored i
  refine ⟨⟨safety.flat.snapshotFile i, stored.aligned⟩, stored.rooted, fun term led => ?_⟩
  have promise := view.promise_le (s.node i).restart (by simp)
  rw [Raft.restart_currentTerm] at promise
  exact ((safety.leaders i term led).1.trans resumes.promise).trans promise

theorem turn (effect : Effect m s a o) : FlatTurn s a o :=
  safety.flat.turn safety.static safety.shaped safety.matching effect

/-- The acting node relies on no less than before. -/
theorem relies (admissible : Admissible m view s a) (effect : Effect m s a o) :
    view.promise (s.node o.node) ≤ view.promise o.raft ∧
      (view.stable o.raft = view.stable (s.node o.node) ∨
        view.stable o.raft = o.raft.log) := by
  rcases term_le_or_restart effect with le | ⟨action, raft⟩
  · exact view.moves (safety.flat.stores safety.static effect) le
      (safety.stored o.node).term_le
  · have resumes := admissible.restarts _ action
    rw [raft]
    exact ⟨resumes.promise, .inl (resumes.stableAfter.trans resumes.stable.symm)⟩

/-- No entry is of a later term than the node that holds it. -/
theorem bounded_of_effect (effect : Effect m s a o) :
    ∀ entry ∈ o.raft.log, entry.term ≤ o.raft.currentTerm := by
  have restarted : o.raft = (s.node o.node).restart →
      ∀ entry ∈ o.raft.log, entry.term ≤ o.raft.currentTerm := by
    intro raft
    rw [raft, Raft.restart_log, Raft.restart_currentTerm]
    exact (safety.stored o.node).bounded
  rcases term_le_or_restart effect with le | ⟨-, raft⟩
  · intro entry member
    have old : entry ∈ (s.node o.node).log → entry.term ≤ o.raft.currentTerm :=
      fun held => (safety.bounded o.node entry held).trans le
    cases safety.turn effect with
    | keeps log => exact old (log ▸ member)
    | elects _ raft => exact old (by simpa [raft, Raft.enterLeader] using member)
    | writes _ _ term log sameTerm =>
        rw [log] at member
        rcases List.mem_append.mp member with held | new
        · exact old held
        · rw [List.mem_singleton.mp new, term, sameTerm]
    | @merges src req _ _ sameTerm log =>
        rw [log] at member
        rcases merge_eq_or (s.node o.node).log ((s.ledger.book req.term).take
          (req.prevLogIndex + req.entries.length)) with kept | replaced
        · exact old (kept ▸ member)
        · rw [replaced] at member
          rw [sameTerm]
          exact safety.safe.bounded _ entry (List.mem_of_mem_take member)
    | restarts _ raft => exact restarted raft entry member
  · exact restarted raft

/-- A node that stands in an unled term holds entries of earlier terms only. -/
theorem earlier {i : Int} (vacant : s.ledger.leader (s.node i).currentTerm = none) :
    ∀ entry ∈ (s.node i).log, entry.term < (s.node i).currentTerm := by
  intro entry member
  refine lt_of_le_of_ne (safety.bounded i entry member) fun same => ?_
  obtain ⟨before, after, split⟩ := List.append_of_mem member
  have rooted := safety.matching.rooted i
  rw [safety.flat.whole_eq, split] at rooted
  have led := (rooted before entry ⟨after, by simp⟩).1
  rw [same, vacant] at led
  cases led

/-- The members behind a candidate have promised its term and voted for the log
it holds. -/
theorem voted {i q : Int} (candidate : (s.node i).state = .candidate)
    (promise : view.promise (s.node i) = (s.node i).currentTerm)
    (vacant : s.ledger.leader (s.node i).currentTerm = none)
    (member : q ∈ s.voters i (s.node i).currentTerm) :
    (s.node i).currentTerm ≤ (view.register s).promise q ∧
      (q = i ∨ (view.register s).ballots
        ⟨q, (s.node i).currentTerm, endOf LogEntry.term (s.node i).log⟩) := by
  rcases mem_voters.mp member with rfl | counted
  · exact ⟨promise.ge, .inl rfl⟩
  · obtain ⟨req, granted, rfl⟩ := safety.voting.counted counted
    obtain ⟨term, -, claims⟩ := safety.campaigning.granted granted
    have cast : (view.register s).ballots
        ⟨q, (s.node req.candidateId).currentTerm,
          endOf LogEntry.term (s.node req.candidateId).log⟩ :=
      ⟨req, granted, claims candidate term (term ▸ vacant)⟩
    exact ⟨(safety.safe.ballots _ cast).1, .inr cast⟩

/-- The register stays safe when only the ledger follows the step. -/
theorem safe_ledger (admissible : Admissible m view s a) (effect : Effect m s a o) :
    (atLedger view s o).Safe LogEntry.term (population m) := by
  unfold atLedger
  cases safety.turn effect with
  | keeps _ ledger => exact ledger ▸ safety.safe
  | merges _ _ _ _ _ ledger => exact ledger ▸ safety.safe
  | restarts _ _ ledger => exact ledger ▸ safety.safe
  | writes leads _ term _ _ _ _ ledger =>
      rw [ledger]
      refine safety.safe.write ?_ rfl
      rw [term]
      exact Option.isSome_iff_exists.mpr ⟨_, (safety.matching.leading _ leads).1⟩
  | elects candidate _ action recorded ledger =>
      obtain ⟨_, acts⟩ := action
      obtain ⟨majority, promise⟩ := admissible.promotes _ _ acts candidate
      have vacant := safety.vacant admissible effect recorded
      have rooted := safety.matching.rooted o.node
      rw [safety.flat.whole_eq] at rooted
      rw [ledger]
      exact safety.safe.elect vacant rooted (safety.earlier vacant) majority
        fun q member => safety.voted candidate promise vacant member

/-- A ballot of the step is a promise of a node whose log the candidate matches. -/
theorem ballot_of_effect (effect : Effect m s a o) {q : Int} {term : Nat}
    {req : RequestVoteRequest} (recorded : .granted q term req ∈ o.events) :
    q = o.node ∧ view.promise o.raft = term ∧
      ledgerOf (o.events ++ s.history) = s.ledger ∧
      UpTo (endOf LogEntry.term (s.node q).log) (claimed req) := by
  cases effect with
  | @grantVote src dst req disk r inNet grants =>
      cases List.mem_singleton.mp recorded
      have aligned := safety.flat.whole_eq q ▸ safety.shaped.aligned q
      refine ⟨rfl, ?_, rfl, upTo_of_logOk aligned grants.upToDate⟩
      have adopted : r.currentTerm = req.term := by
        rw [grants.result]
        simp [Raft.resetElectionTimerLocked, Raft.saved, grants.current]
      rw [← adopted]
      refine (view.saved r ?_ ?_).1
      · rw [grants.result]
        rfl
      · rw [grants.result]
        rfl
  | _ => simp at recorded

/-- The acting node loses nothing of a book of its past that is not dead, when a
restart does not. -/
theorem keeps_part (effect : Effect m s a o) {t : Nat} {part : List LogEntry}
    (le : t ≤ (s.node o.node).currentTerm)
    (own : (atLedger view s o).OwnPart LogEntry.term t part)
    (held : part <+: (s.node o.node).log ∨
      (atLedger view s o).Dead (population m) t part.length)
    (recovered : a = .restart o.node → part <+: (s.node o.node).persister.log ∨
      (atLedger view s o).Dead (population m) t part.length) :
    part <+: o.raft.log ∨ (atLedger view s o).Dead (population m) t part.length := by
  cases safety.turn effect with
  | keeps log => exact log ▸ held
  | elects _ raft => exact raft ▸ held
  | writes _ _ _ log =>
      rw [log]
      exact held.imp_left fun inLog => inLog.trans (List.prefix_append _ _)
  | merges inNet current _ log _ ledger =>
      obtain ⟨led, -⟩ := safety.matching.requests inNet
      have same : atLedger view s o = view.register s := by
        rw [atLedger, ledger]
        rfl
      rw [log]
      rw [same] at own held ⊢
      exact safety.safe.part_merge own (le.trans current) led (List.take_prefix _ _) held
  | restarts action raft =>
      rw [raft, Raft.restart_log]
      exact recovered action

/-- The register stays safe when everything but acknowledgements follows the
step. -/
theorem safe_nodes (admissible : Admissible m view s a) (effect : Effect m s a o)
    (applies : Applies s o s') :
    ({ view.register s' with ack := ackOf s.history } :
      Register Int LogEntry).Safe LogEntry.term (population m) := by
  have safe := safety.safe_ledger admissible effect
  obtain ⟨promise, stable⟩ := safety.relies admissible effect
  have bound := view.promise_le (s.node o.node) (safety.stored o.node).term_le
  -- what binds the acting node is in its new log
  have logs : ∀ t part, (atLedger view s o).Binding LogEntry.term o.node t part →
      part <+: o.raft.log ∨ (atLedger view s o).Dead (population m) t part.length := by
    intro t part binding
    refine safety.keeps_part effect ((safe.promised _ t part binding).trans bound)
      binding.1 (safe.logs _ t part binding) fun restart => ?_
    rw [← (admissible.restarts _ restart).stable]
    exact safe.stables _ t part binding
  have ledger := ledger_of_applies applies
  refine safe.replace ledger rfl (fun q => ?_) (fun q t part binding => ?_)
    (fun q t part binding => ?_) fun ballot cast => ?_
  · by_cases acts : q = o.node
    · subst acts
      simp only [View.register, applies.node_self]
      exact promise
    · simp only [View.register, applies.node_of_ne acts]
      exact le_rfl
  · by_cases acts : q = o.node
    · subst acts
      simp only [View.register, applies.node_self]
      exact logs t part binding
    · simp only [View.register, applies.node_of_ne acts]
      exact safe.logs q t part binding
  · by_cases acts : q = o.node
    · subst acts
      simp only [View.register, applies.node_self]
      rcases stable with kept | fresh
      · rw [kept]
        exact safe.stables o.node t part binding
      · rw [fresh]
        exact logs t part binding
    · simp only [View.register, applies.node_of_ne acts]
      exact safe.stables q t part binding
  · obtain ⟨req, granted, claims⟩ := cast
    rcases applies.mem_history.mp granted with new | old
    · obtain ⟨voter, promised, same, upToDate⟩ := safety.ballot_of_effect effect new
      right
      have rooted := safety.matching.rooted ballot.voter
      rw [safety.flat.whole_eq, ← same] at rooted
      refine ⟨?_, rooted, claims ▸ upToDate⟩
      simp only [View.register, voter, applies.node_self, promised, le_refl]
    · exact .inl ⟨req, old, claims⟩

/-- What the acting node acknowledges in its term: nothing new, or a part of the
leader's book that it holds and relies on. -/
theorem ack_of_effect (admissible : Admissible m view s a) (effect : Effect m s a o) :
    ackOf (o.events ++ s.history) = ackOf s.history ∨
      ∃ n, ackOf (o.events ++ s.history) =
          Function.update (ackOf s.history) o.node
            (Function.update (ackOf s.history o.node) o.raft.currentTerm
              (max (ackOf s.history o.node o.raft.currentTerm) n)) ∧
        n ≤ ((atLedger view s o).book o.raft.currentTerm).length ∧
        ((atLedger view s o).book o.raft.currentTerm).take n <+: o.raft.log ∧
        ((atLedger view s o).book o.raft.currentTerm).take n <+: view.stable o.raft := by
  cases effect with
  | @append src dst req disk heard r log modified commitCh inNet yields term accepts stored
      result =>
      right
      obtain ⟨-, slice⟩ := safety.matching.requests inNet
      have reliable := admissible.appends _ _ _ _ _ _ rfl result rfl
      have sameTerm : r.currentTerm = req.term := by rw [stored]; exact term
      have merged := safety.flat.merged safety.shaped safety.matching inNet accepts
      have sameLog : r.log = log := by rw [stored]
      have held : (s.ledger.book req.term).take (req.prevLogIndex + req.entries.length) <+:
          r.log := by
        rw [sameLog, merged]
        exact part_prefix_merge _ _
      refine ⟨req.prevLogIndex + req.entries.length, ?_, ?_, ?_, ?_⟩
      · simp only [sameTerm]
        rfl
      · simp only [sameTerm]
        exact slice.length_le
      · simp only [sameTerm]
        exact held
      · simp only [sameTerm]
        exact (List.prefix_take_iff.mpr ⟨held, List.length_take_le _ _⟩).trans reliable
  | @replicate i cmd disk entry r member leads fresh stored =>
      right
      have sameTerm : r.currentTerm = entry.term := by simp [stored, fresh, Raft.saved]
      have sameLog : r.log = (s.node i).log ++ [entry] := by simp [stored, Raft.saved]
      have book : (s.ledger.write entry.term entry).book entry.term =
          (s.node i).log ++ [entry] := by
        rw [Ledger.write_book_self, fresh]
        simp only
        rw [(safety.matching.leading i leads).2, safety.flat.whole_eq]
      have ledger : ledgerOf ((commitEvent i (s.folded i) (s.node i) r ++
          [.acknowledged i entry.term entry.index, .appended i entry]) ++ s.history) =
          s.ledger.write entry.term entry := by
        rw [List.append_assoc, ledgerOf_commitEvent]
        rfl
      have index : entry.index = ((s.node i).log ++ [entry]).length := by
        rw [fresh]
        simp [safety.flat.logBase]
      have reliable := (view.saved r (by simp [stored, Raft.saved])
        (by simp [stored, Raft.saved])).2
      refine ⟨entry.index, ?_, ?_, ?_, ?_⟩
      · simp only [sameTerm, List.append_assoc, ackOf_commitEvent]
        rfl
      · simp only [atLedger, ledger, sameTerm, book]
        exact index.le
      · simp only [atLedger, ledger, sameTerm, book, sameLog]
        exact List.take_prefix _ _
      · simp only [atLedger, ledger, sameTerm, book, reliable, sameLog]
        exact List.take_prefix _ _
  | recordMatch => exact .inl (ackOf_commitEvent _ _ _ _ _)
  | recordInstall => exact .inl (ackOf_commitEvent _ _ _ _ _)
  | _ => exact .inl rfl

/-- The stored term of the acting node is not above its term. -/
theorem stored_le (effect : Effect m s a o) :
    o.raft.persister.term ≤ o.raft.currentTerm := by
  cases safety.flat.stores safety.static effect with
  | saved term => exact term.le
  | kept persister =>
      rw [persister]
      rcases term_le_or_restart effect with le | ⟨-, raft⟩
      · exact (safety.stored o.node).term_le.trans le
      · rw [raft, Raft.restart_currentTerm]

theorem growsBy (admissible : Admissible m view s a) (effect : Effect m s a o) :
    GrowsBy o.node s.ledger (ledgerOf (o.events ++ s.history)) :=
  safety.matching.growsBy effect fun _ _ recorded => safety.vacant admissible effect recorded

/-- Admissible steps keep the register safe, and the register evolves. -/
theorem safe_of_effect (admissible : Admissible m view s a) (effect : Effect m s a o)
    (applies : Applies s o s') :
    (view.register s').Safe LogEntry.term (population m) ∧
      (view.register s).Evolves (view.register s') := by
  have safe := safety.safe_nodes admissible effect applies
  have extension : s.ledger.Extends s'.ledger := by
    rw [ledger_of_applies applies]
    exact (safety.growsBy admissible effect).extension
  have evolution : (view.register s).Evolves
      { view.register s' with ack := ackOf s.history } := by
    refine ⟨extension, fun q => ?_, fun _ _ => le_rfl, fun _ _ _ => rfl⟩
    by_cases acts : q = o.node
    · subst acts
      simp only [View.register, applies.node_self]
      exact (safety.relies admissible effect).1
    · simp only [View.register, applies.node_of_ne acts]
      exact le_rfl
  rcases safety.ack_of_effect admissible effect with silent | ⟨n, acked, short, inLog, reliable⟩
  · have same : view.register s' = { view.register s' with ack := ackOf s.history } := by
      simp only [View.register, applies.history, silent]
    rw [same]
    exact ⟨safe, evolution⟩
  · have same : view.register s' = ({ view.register s' with ack := ackOf s.history } :
        Register Int LogEntry).acked o.node o.raft.currentTerm n := by
      simp only [View.register, Register.acked, applies.history, acked]
    have promise : view.promise (s'.node o.node) ≤ o.raft.currentTerm := by
      rw [applies.node_self]
      exact view.promise_le o.raft (safety.stored_le effect)
    simp only [atLedger, ← ledger_of_applies applies] at short inLog reliable
    rw [same]
    refine ⟨safe.acknowledge promise short ?_ ?_,
      evolution.trans (Register.evolves_acked promise n)⟩
    · simpa only [View.register, applies.node_self] using inLog
    · intro part own le
      simp only [View.register, applies.node_self]
      have held : part <+: view.stable o.raft :=
        (List.prefix_take_iff.mpr ⟨own.2.1, le⟩).trans reliable
      refine ⟨held, (view.settled o.raft ?_).ge⟩
      rintro empty
      obtain ⟨before, entry, rfl, -⟩ := own.2.2
      rw [empty, List.prefix_nil] at held
      simp at held

/-- Admissible steps keep all invariants. -/
theorem step (admissible : Admissible m view s a) (stepped : s.step m a = some s') :
    Safety m view s' ∧ (view.register s).Evolves (view.register s') := by
  obtain ⟨o, effect, applies⟩ := effect_of_step stepped
  obtain ⟨safe, evolution⟩ := safety.safe_of_effect admissible effect applies
  have extension : s.ledger.Extends s'.ledger := evolution.ledger
  have ledger := ledger_of_applies applies
  have restartable := safety.restartable admissible
  have static := safety.static.step stepped
  have shaped := safety.shaped.step (fun i restart => (restartable i restart).recoverable) stepped
  have matching := safety.matching.of_effect safety.static safety.shaped effect applies
    (fun _ _ recorded => safety.vacant admissible effect recorded) restartable
  have flat := safety.flat.of_effect safety.static effect applies
  have bounded : ∀ i, ∀ entry ∈ (s'.node i).log, entry.term ≤ (s'.node i).currentTerm := by
    intro i
    by_cases acts : i = o.node
    · rw [acts, applies.node_self]
      exact safety.bounded_of_effect effect
    · rw [applies.node_of_ne acts]
      exact safety.bounded i
  refine ⟨?_, evolution⟩
  refine
    { fits := safety.fits
      static
      voting := safety.voting.step safety.fits safety.static
        (fun i restart => (admissible.restarts i restart).remembers) stepped
      shaped
      matching
      flat
      campaigning := safety.campaigning.of_effect safety.static safety.shaped safety.matching
        safety.flat safety.voting effect applies extension
      stored := fun i => ?_
      bounded
      safe
      leaders := fun i term led => ?_
      promoted := fun member => ?_ }
  · by_cases acts : i = o.node
    · have aligned := flat.whole_eq i ▸ shaped.aligned i
      have rooted := flat.whole_eq i ▸ matching.rooted i
      have bounded := bounded i
      subst acts
      rw [applies.node_self] at aligned rooted bounded ⊢
      exact (safety.stored o.node).of_stores (safety.flat.stores safety.static effect)
        extension (fun _ => safety.stored_le effect) aligned rooted bounded
    · rw [applies.node_of_ne acts]
      have stored := safety.stored i
      exact ⟨stored.term_le, stored.aligned, stored.rooted.extend extension, stored.bounded⟩
  · have current : term ≤ view.promise (s.node i) ∧
        Majority (population m) (s.voters i term) := by
      by_cases old : s.ledger.leader term = some i
      · exact safety.leaders i term old
      · obtain ⟨rfl, rfl, candidate, -, _, acts⟩ :=
          (safety.turn effect).new_leader (ledger ▸ led) old
        obtain ⟨majority, promise⟩ := admissible.promotes _ _ acts candidate
        exact ⟨promise.ge, majority⟩
    have member := current.2.1 (mem_voters.mpr (.inl rfl))
    rw [population, List.mem_toFinset] at member
    exact ⟨current.1.trans (evolution.promise i),
      current.2.mono (voters_mono applies i term) (static.voters_subset member term)⟩
  · rcases applies.mem_history.mp member with new | old
    · obtain ⟨-, -, -, -, events, -⟩ := promoted_of_effect effect new
      rw [ledger, events]
      exact Ledger.elect_leader_self _ _
    · exact extension.leader _ _ (safety.promoted old)

end Safety

end Cluster

end DistribKV
